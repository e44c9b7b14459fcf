import Wcl.Markup.Reader
import Wcl.Proofs.Text.Scan

/-!
# Runs over statements

Without directives a reader is a machine on the open sections: each statement
is a step (`Sections.step`), a text is the list of its statements
(`Statement.ofText`), and reading it is the run over them from the empty
document, with nothing left open at the end (`result_parseText`).

A text has no directives if no logical line, without its comment and the blanks
around it, begins with the mark of one (`Source.Undirected`).
-/

namespace Wcl

/-! ### Results -/

section

variable {ε ε' α β : Type}

theorem except_bind_eq_ok {x : Except ε α} {f : α → Except ε β} {b : β} :
    x >>= f = .ok b ↔ ∃ a, x = .ok a ∧ f a = .ok b := by
  cases x with
  | error e => simp [bind, Except.bind]
  | ok a => simp [bind, Except.bind]

theorem mapError_eq_ok {f : ε → ε'} {x : Except ε α} {a : α} :
    x.mapError f = .ok a ↔ x = .ok a := by
  cases x <;> simp [Except.mapError]

end

/-! ### Statements of a text -/

namespace Source

/-- No logical line of the text begins with the mark of a directive. -/
def Undirected (t : Text) : Prop :=
  ∀ line ∈ (ofText t).logicalLines, ∀ l ∈ line.2,
    ¬ "<<".toList <+: Text.trim (Statement.bareLine l)

instance (t : Text) : Decidable (Undirected t) :=
  inferInstanceAs (Decidable (∀ line ∈ (ofText t).logicalLines, ∀ l ∈ line.2, ¬ _))

theorem notMem_joinFrom {s : Source} (h : none ∉ s) (number : Nat) (begun : Option (Nat × Text)) :
    ∀ line ∈ joinFrom number begun s, line.2 ≠ none := by
  induction s generalizing number begun with
  | nil =>
    intro line hline
    cases begun with
    | none => cases hline
    | some b => simp_all [joinFrom]
  | cons l s ih =>
    have hs : none ∉ s := fun hm => h (List.mem_cons_of_mem _ hm)
    cases l with
    | none => exact absurd (List.mem_cons_self ..) h
    | some l =>
      intro line hline
      rw [joinFrom] at hline
      split at hline
      · exact ih hs _ _ line hline
      · rcases List.mem_cons.1 hline with rfl | hline
        · simp
        · exact ih hs _ _ line hline

/-- Each line is made of one of the pieces. -/
theorem exists_of_mem_ofPieces {α : Type} {isEmpty : α → Bool} {line last : α → Option Text}
    {pieces : List α} {l : Option Text} (h : l ∈ ofPieces isEmpty line last pieces) :
    ∃ p ∈ pieces, l = line p ∨ l = last p := by
  induction pieces with
  | nil => exact absurd h List.not_mem_nil
  | cons p ps ih =>
    cases ps with
    | nil =>
      rw [ofPieces] at h
      split at h
      · exact absurd h List.not_mem_nil
      · exact ⟨p, List.mem_cons_self .., .inr (List.mem_singleton.1 h)⟩
    | cons q qs =>
      rw [ofPieces] at h
      · rcases List.mem_cons.1 h with rfl | h
        · exact ⟨p, List.mem_cons_self .., .inl rfl⟩
        · obtain ⟨p', hp', hl⟩ := ih h
          exact ⟨p', List.mem_cons_of_mem _ hp', hl⟩
      · simp

/-- A line of a text is a piece of it, with or without its carriage return. -/
theorem exists_of_mem_ofText {t : Text} {l : Option Text} (h : l ∈ ofText t) :
    ∃ p ∈ t.splitOn '\n', l = some (dropReturn p) ∨ l = some p :=
  exists_of_mem_ofPieces h

theorem none_notMem_ofText (t : Text) : none ∉ ofText t := by
  intro h
  obtain ⟨p, _, h | h⟩ := exists_of_mem_ofText h <;> cases h

/-- Every line of a text can be read. -/
theorem logicalLines_ofText (t : Text) : ∀ line ∈ (ofText t).logicalLines, line.2 ≠ none :=
  notMem_joinFrom (none_notMem_ofText t) 1 none

end Source

namespace Statement

/-- Whether a statement is a directive, well-formed or not. -/
def isDirective : Statement → Bool
  | .includeFile _ => true
  | .includeCall _ _ => true
  | .badDirective _ => true
  | _ => false

/-- The statements of logical lines. -/
def ofLines (lines : List LogicalLine) : List Statement :=
  lines.filterMap fun line => line.2.map ofLine

/-- The statements of a text. -/
def ofText (t : Text) : List Statement := ofLines (Source.ofText t).logicalLines

theorem eq_of_mem_mark {c : Char} (h : c ∈ "<<".toList) : c = '<' := by
  simpa using h

/-- Blanks in front of the mark of a directive can be cut off. -/
theorem mark_prefix_trim {line : Text} (h : "<<".toList <+: Text.trimStart line) :
    "<<".toList <+: Text.trim line :=
  Text.prefix_trim (fun _ hc => eq_of_mem_mark hc ▸ rfl) h

theorem directive?_eq_none {line : Text} (h : ¬ "<<".toList <+: Text.trim line) (word : Text) :
    directive? word line = none := by
  rw [directive?, Text.afterStart?_eq_none_iff.2 h]
  rfl

/-- The statement of a line that is neither blank nor begins like a directive. -/
theorem ofBareLine_eq {line : Text} (hne : Text.trim line ≠ [])
    (h : ¬ "<<".toList <+: Text.trim line) :
    ofBareLine line = match closing? line with
      | some tag => .closing tag
      | none => match opening? line with
        | some (tag, label) => .opening tag label
        | none => match assignment? line with
          | some (key, value) => .assignment key value
          | none => .other (Text.trim line) := by
  have hmark : ¬ "<<".toList.isPrefixOf (Text.trimStart line) = true :=
    fun hp => h (mark_prefix_trim (List.isPrefixOf_iff_prefix.1 hp))
  have hblank : ¬ (Text.trim line).isEmpty = true := mt List.isEmpty_iff.1 hne
  have hfile : includePath? line = none := by
    rw [includePath?, directive?_eq_none h]
    rfl
  have hcall : includeCall? line = none := by
    rw [includeCall?, directive?_eq_none h]
    rfl
  rw [ofBareLine, if_neg hblank, hfile, hcall]
  exact if_neg hmark

theorem isDirective_ofBareLine {line : Text} (h : ¬ "<<".toList <+: Text.trim line) :
    (ofBareLine line).isDirective = false := by
  by_cases hne : Text.trim line = []
  · rw [ofBareLine, if_pos (List.isEmpty_iff.2 hne)]
    rfl
  · rw [ofBareLine_eq hne h]
    cases closing? line with
    | some tag => rfl
    | none =>
      cases opening? line with
      | some o => rfl
      | none => cases assignment? line <;> rfl

theorem isDirective_ofText {t : Text} (h : Source.Undirected t) :
    ∀ s ∈ ofText t, s.isDirective = false := by
  intro s hs
  obtain ⟨line, hline, l, hl, rfl⟩ : ∃ line ∈ (Source.ofText t).logicalLines,
      ∃ l, line.2 = some l ∧ ofLine l = s := by
    simpa [ofText, ofLines] using hs
  exact isDirective_ofBareLine (h line hline l hl)

end Statement

/-! ### Runs -/

namespace Sections

/-- What a statement does that is no directive. -/
def step (s : Sections) : Statement → Except MarkupFault Sections
  | .closing tag => s.closed tag
  | .opening tag label => s.opened tag label
  | .assignment key value => .ok (s.assign key value)
  | _ => .ok s

/-- What statements do one after another. -/
def run : List Statement → Sections → Except MarkupFault Sections
  | [], s => .ok s
  | statement :: rest, s => do
    let s ← s.step statement
    run rest s

theorem run_cons (statement : Statement) (rest : List Statement) (s : Sections) :
    run (statement :: rest) s = s.step statement >>= run rest := rfl

theorem run_cons_of_step {statement : Statement} {s s' : Sections}
    (h : s.step statement = .ok s') (rest : List Statement) :
    run (statement :: rest) s = run rest s' := by
  rw [run_cons, h]
  rfl

theorem run_append (a b : List Statement) (s : Sections) :
    run (a ++ b) s = run a s >>= run b := by
  induction a generalizing s with
  | nil => rfl
  | cons statement a ih =>
    rw [List.cons_append, run_cons, run_cons, bind_assoc]
    exact congrArg _ (funext ih)

theorem run_append_of_run {a : List Statement} {s s' : Sections} (h : run a s = .ok s')
    (b : List Statement) : run (a ++ b) s = run b s' := by
  rw [run_append, h]
  rfl

theorem run_concat_eq_ok {front : List Statement} {st : Statement} {s₀ s' : Sections} :
    run (front ++ [st]) s₀ = .ok s' ↔ ∃ s, run front s₀ = .ok s ∧ s.step st = .ok s' := by
  have hlast : ∀ s, run [st] s = s.step st := fun s => bind_pure (s.step st)
  rw [run_append, except_bind_eq_ok]
  simp only [hlast]

theorem finished_eq_ok_iff {s : Sections} {d : Document} :
    s.finished = .ok d ↔ s.frames = [] ∧ s.root = d := by
  by_cases h : s.frames = [] <;> simp [finished, h]

end Sections

namespace Reader

theorem result_step {statement : Statement} (h : statement.isDirective = false) (r : Reader)
    (load : Nat → Sections → Text → Traced Document) (source : Text) (number : Nat)
    (s : Sections) :
    (r.step load source number statement s).result =
      (s.step statement).mapError (.markup source number) := by
  cases statement with
  | includeFile path => cases h
  | includeCall name keys => cases h
  | badDirective line => cases h
  | _ => rfl

theorem result_readLines {lines : List LogicalLine} (hr : ∀ line ∈ lines, line.2 ≠ none)
    (hd : ∀ s ∈ Statement.ofLines lines, s.isDirective = false) (r : Reader)
    (load : Nat → Sections → Text → Traced Document) (source : Text) (last : Nat)
    (s : Sections) :
    ∃ number, (r.readLines load source last lines s).result =
      (Sections.run (Statement.ofLines lines) s >>= Sections.finished).mapError
        (.markup source number) := by
  induction lines generalizing last s with
  | nil => exact ⟨last, rfl⟩
  | cons line lines ih =>
    obtain ⟨number, l⟩ := line
    cases l with
    | none => exact absurd rfl (hr _ (List.mem_cons_self ..))
    | some l =>
      have hcons : Statement.ofLines ((number, some l) :: lines) =
          Statement.ofLine l :: Statement.ofLines lines := rfl
      rw [hcons] at hd ⊢
      have hstep := r.result_step (hd _ (List.mem_cons_self ..)) load source number s
      rw [readLines, Traced.result_bind, hstep, Sections.run_cons]
      cases s.step (Statement.ofLine l) with
      | error f => exact ⟨number, rfl⟩
      | ok s' =>
        exact ih (fun line h => hr line (List.mem_cons_of_mem _ h))
          (fun st h => hd st (List.mem_cons_of_mem _ h)) number s'

/-- Reading a text without directives is a run over its statements. -/
theorem result_parseText {t : Text} (h : ∀ s ∈ Statement.ofText t, s.isDirective = false)
    (r : Reader) :
    ∃ number, (r.parseText t).result =
      (Sections.run (Statement.ofText t) {} >>= Sections.finished).mapError
        (.markup "stdin".toList number) :=
  r.result_readLines (Source.logicalLines_ofText t) h _ _ 0 {}

end Reader

end Wcl
