import Wcl.Proofs.Markup.Lines
import Wcl.Proofs.Markup.NestedFiles

/-!
# What a text says

Whether a text can be read, and the document it makes, depends on its statements
alone (`Reader.parseText_congr`), and not on the blank ones among them: a line
has its number for errors and messages only, also while files are included.  So
two texts that say the same (`Statement.spoken`) are read alike, with any files
and any include functions.
-/

namespace Wcl

/-- The statements of a text that are not blank. -/
def Statement.spoken (t : Text) : List Statement := (ofText t).filter (· != .blank)

theorem Statement.spoken_eq (t : Text) : spoken t =
    ((Source.joined none (Source.ofText t)).filterMap (Option.map ofLine)).filter
      (· != .blank) := by
  rw [spoken, ofText, ofLines_eq, Source.logicalLines, Source.map_snd_joinFrom]
  rfl

namespace Reader

variable {r : Reader} {left : Nat} {source source' : Text} {number number' : Nat}
  {st : Statement} {s s' : Sections}

/-- The number of a line and the name of its file play no part in what a statement
does, unless it fails. -/
theorem step_eq_ok_congr
    (h : (r.step (r.loadWithin source left) source number st s).result = .ok s') :
    (r.step (r.loadWithin source' left) source' number' st s).result = .ok s' := by
  cases st with
  | includeFile raw =>
    obtain ⟨d, hload, h⟩ := Traced.bind_eq_ok.1 h
    exact Traced.bind_eq_ok.2 ⟨d, loadWithin_eq_ok.2 (loadWithin_eq_ok.1 hload), h⟩
  | closing tag => exact mapError_eq_ok.2 (mapError_eq_ok.1 h)
  | opening tag label => exact mapError_eq_ok.2 (mapError_eq_ok.1 h)
  | badDirective line => cases h
  | _ => exact h

/-- The sections behind statements, as far as includes go `left` files deep. -/
def obeys (r : Reader) (left : Nat) : List Statement → Sections → Except Error Sections
  | [], s => .ok s
  | st :: sts, s => do
    let s ← (r.step (r.loadWithin [] left) [] 0 st s).result
    r.obeys left sts s

theorem obeys_cons_eq_ok {sts : List Statement} : r.obeys left (st :: sts) s = .ok s' ↔
    ∃ s₁, (r.step (r.loadWithin [] left) [] 0 st s).result = .ok s₁ ∧
      r.obeys left sts s₁ = .ok s' :=
  except_bind_eq_ok

theorem passes_eq_ok_iff {lines : List LogicalLine} (hr : ∀ line ∈ lines, line.2 ≠ none) :
    r.passes (r.loadWithin source left) source lines s = .ok s' ↔
      r.obeys left (Statement.ofLines lines) s = .ok s' := by
  induction lines generalizing s with
  | nil => rfl
  | cons first lines ih =>
    obtain ⟨hfirst, hrest⟩ := List.forall_mem_cons.1 hr
    obtain ⟨number, line | line⟩ := first
    · exact absurd rfl hfirst
    · have hcons : Statement.ofLines ((number, some line) :: lines) =
          Statement.ofLine line :: Statement.ofLines lines := rfl
      rw [hcons, passes_cons_eq_ok, obeys_cons_eq_ok]
      simp only [ih hrest]
      exact exists_congr fun s₁ => and_congr_left fun _ => ⟨step_eq_ok_congr, step_eq_ok_congr⟩

/-- Blank statements do nothing. -/
theorem obeys_filter (sts : List Statement) :
    r.obeys left (sts.filter (· != .blank)) s = r.obeys left sts s := by
  induction sts generalizing s with
  | nil => rfl
  | cons st sts ih =>
    by_cases hst : st = .blank
    · subst hst
      rw [List.filter_cons_of_neg (by simp), ih]
      rfl
    · rw [List.filter_cons_of_pos (by simpa using hst), obeys, obeys]
      exact congrArg _ (funext fun s₁ => ih)

theorem parseText_eq_ok_iff {t : Text} {d : Document} :
    (r.parseText t).result = .ok d ↔
      ∃ s, r.obeys maxIncludeDepth (Statement.spoken t) {} = .ok s ∧ s.finished = .ok d := by
  rw [parseText, parse, readSource_eq_ok]
  simp only [passes_eq_ok_iff (Source.logicalLines_ofText t), Statement.spoken, obeys_filter]
  rfl

/-- Texts that say the same are read alike. -/
theorem parseText_congr (r : Reader) {t t' : Text}
    (h : Statement.spoken t = Statement.spoken t') (d : Document) :
    (r.parseText t).result = .ok d ↔ (r.parseText t').result = .ok d := by
  rw [parseText_eq_ok_iff, parseText_eq_ok_iff, h]

end Reader

end Wcl
