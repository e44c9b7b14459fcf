import Mathlib.Data.List.Chain
import Wcl.Proofs.Markup.OpenFiles
import Wcl.Proofs.Markup.Run

/-!
# Files inside files

While a reader takes its turns, every file that is open has been included from
the one below it (`Reader.Nested`), so a file is as deep as there are includes
that lead to it, and none is deeper than the limit.

A file that comes to its end makes the same document wherever it is included
(`Reader.loadWithin_agrees`), and the files it includes come to theirs with less
depth left.  So no file is included, over any number of others, from where it is
being read (`Reader.Nested.not_reads_of_circle`): the limit stops it.
-/

namespace Wcl

namespace Reader

variable {r : Reader}

/-! ### Lines that have been read -/

/-- The sections behind lines. -/
def passes (r : Reader) (load : (number : Nat) → Sections → (path : Text) → Traced Document)
    (source : Text) : List LogicalLine → Sections → Except Error Sections
  | [], s => .ok s
  | (_, none) :: _, _ => .error (.badFile source .undecodable)
  | (number, some line) :: lines, s => do
    let s ← (r.step load source number (Statement.ofLine line) s).result
    r.passes load source lines s

section

variable {load load' : Nat → Sections → Text → Traced Document} {source source' : Text}
  {number : Nat} {line : Text} {lines : List LogicalLine} {s s' : Sections}

theorem passes_cons_eq_ok : r.passes load source ((number, some line) :: lines) s = .ok s' ↔
    ∃ s₁, (r.step load source number (Statement.ofLine line) s).result = .ok s₁ ∧
      r.passes load source lines s₁ = .ok s' :=
  except_bind_eq_ok

theorem passes_append_eq_ok {front back : List LogicalLine} :
    r.passes load source (front ++ back) s = .ok s' ↔ ∃ s₁,
      r.passes load source front s = .ok s₁ ∧ r.passes load source back s₁ = .ok s' := by
  induction front generalizing s with
  | nil => simp [passes]
  | cons first front ih =>
    obtain ⟨number, line | line⟩ := first
    · simp [passes]
    · simp only [List.cons_append, passes_cons_eq_ok, ih]
      constructor
      · rintro ⟨s₁, hstep, s₂, hfront, hback⟩
        exact ⟨s₂, ⟨s₁, hstep, hfront⟩, hback⟩
      · rintro ⟨s₂, ⟨s₁, hstep, hfront⟩, hback⟩
        exact ⟨s₁, hstep, s₂, hfront, hback⟩

theorem readLines_eq_ok {last : Nat} {d : Document} :
    (r.readLines load source last lines s).result = .ok d ↔ ∃ s',
      r.passes load source lines s = .ok s' ∧ s'.finished = .ok d := by
  induction lines generalizing last s with
  | nil => simp [readLines, passes, mapError_eq_ok]
  | cons first lines ih =>
    obtain ⟨number, line | line⟩ := first
    · simp [readLines, passes]
    · rw [readLines, Traced.bind_eq_ok]
      simp only [ih, passes_cons_eq_ok]
      constructor
      · rintro ⟨s₁, hstep, s₂, hlines, hd⟩
        exact ⟨s₂, ⟨s₁, hstep, hlines⟩, hd⟩
      · rintro ⟨s₂, ⟨s₁, hstep, hlines⟩, hd⟩
        exact ⟨s₁, hstep, s₂, hlines, hd⟩

/-- Where both succeed, files are loaded alike. -/
def Agree (load load' : (number : Nat) → Sections → (path : Text) → Traced Document) : Prop :=
  ∀ number s raw d d', (load number s raw).result = .ok d →
    (load' number s raw).result = .ok d' → d = d'

theorem step_agrees (hload : Agree load load') {st : Statement} {s₁ s₂ : Sections}
    (h₁ : (r.step load source number st s).result = .ok s₁)
    (h₂ : (r.step load' source' number st s).result = .ok s₂) : s₁ = s₂ := by
  have hchecked : ∀ {x : Except MarkupFault Sections},
      (Traced.ofExcept (x.mapError (.markup source number))).result = .ok s₁ →
      (Traced.ofExcept (x.mapError (.markup source' number))).result = .ok s₂ → s₁ = s₂ :=
    fun h₁ h₂ => Except.ok.inj ((mapError_eq_ok.1 h₁).symm.trans (mapError_eq_ok.1 h₂))
  cases st with
  | includeFile raw =>
    obtain ⟨d₁, hd₁, h₁⟩ := Traced.bind_eq_ok.1 h₁
    obtain ⟨d₂, hd₂, h₂⟩ := Traced.bind_eq_ok.1 h₂
    cases h₁
    cases h₂
    rw [hload number s raw d₁ d₂ hd₁ hd₂]
  | includeCall name keys =>
    obtain ⟨d₁, hd₁, h₁⟩ := Traced.bind_eq_ok.1 h₁
    obtain ⟨d₂, hd₂, h₂⟩ := Traced.bind_eq_ok.1 h₂
    rw [hd₁] at hd₂
    cases hd₂
    cases h₁
    cases h₂
    rfl
  | badDirective line => cases h₁
  | closing tag => exact hchecked h₁ h₂
  | opening tag label => exact hchecked h₁ h₂
  | _ =>
    cases h₁
    cases h₂
    rfl

theorem passes_agrees (hload : Agree load load') {s₁ s₂ : Sections}
    (h₁ : r.passes load source lines s = .ok s₁)
    (h₂ : r.passes load' source' lines s = .ok s₂) : s₁ = s₂ := by
  induction lines generalizing s with
  | nil =>
    cases h₁
    cases h₂
    rfl
  | cons first lines ih =>
    obtain ⟨number, line | line⟩ := first
    · cases h₁
    · obtain ⟨t₁, hstep₁, h₁⟩ := passes_cons_eq_ok.1 h₁
      obtain ⟨t₂, hstep₂, h₂⟩ := passes_cons_eq_ok.1 h₂
      cases step_agrees hload hstep₁ hstep₂
      exact ih h₁ h₂

end

/-! ### A file makes the same document everywhere -/

/-- The path that an include line stands for. -/
def includedPath (r : Reader) (root : Document) (raw : Text) : Except Error Text :=
  ((r.context root).resolveSingle raw).result.map r.host.environment.expandPath

theorem result_includePath_eq (source : Text) (number : Nat) (root : Document) (raw : Text) :
    (r.includePath source number root raw).result = r.includedPath root raw := by
  rw [includePath, includedPath, Traced.result_bind]
  cases ((r.context root).resolveSingle raw).result <;> rfl

theorem includedFile_eq_ok {source : Text} {number depth : Nat} {s : Sections} {raw : Text}
    {file : Text × Source} : (r.includedFile source number depth s raw).result = .ok file ↔
      r.includedPath s.root raw = .ok file.1 ∧ r.host.read file.1 = .ok file.2 := by
  have hopen : ∀ path lines, (r.openFile depth s.keepsCase path).result = .ok lines ↔
      r.host.read path = .ok lines := fun _ _ => mapError_eq_ok
  simp only [includedFile, Traced.bind_eq_ok, result_includePath_eq, hopen, Traced.result_pure,
    Except.ok.injEq]
  constructor
  · rintro ⟨path, hpath, lines, hread, rfl⟩
    exact ⟨hpath, hread⟩
  · rintro ⟨hpath, hread⟩
    exact ⟨file.1, hpath, file.2, hread, rfl⟩

theorem readSource_eq_ok {left : Nat} {source : Text} {keeps : Bool} {lines : Source}
    {d : Document} : (r.readSource left source keeps lines).result = .ok d ↔ ∃ s,
      r.passes (r.loadWithin source left) source lines.logicalLines { keepsCase := keeps } =
        .ok s ∧ s.finished = .ok d := by
  rw [readSource_eq, readLines_eq_ok]

theorem loadWithin_eq_ok {left number : Nat} {source raw : Text} {s : Sections} {d : Document} :
    (r.loadWithin source left number s raw).result = .ok d ↔ ∃ left' path file,
      left = left' + 1 ∧ r.includedPath s.root raw = .ok path ∧ r.host.read path = .ok file ∧
        (r.readSource left' path s.keepsCase file).result = .ok d := by
  cases left with
  | zero => simp [loadWithin]
  | succ left =>
    rw [loadWithin_succ, Traced.bind_eq_ok]
    simp only [includedFile_eq_ok]
    constructor
    · rintro ⟨⟨path, file⟩, ⟨hpath, hfile⟩, hd⟩
      exact ⟨left, path, file, rfl, hpath, hfile, hd⟩
    · rintro ⟨left', path, file, hleft, hpath, hfile, hd⟩
      cases hleft
      exact ⟨(path, file), ⟨hpath, hfile⟩, hd⟩

/-- Where a file can be read to its end, it makes the same document, whatever
depth is left and whatever the file that includes it is called. -/
theorem loadWithin_agrees (left left' : Nat) (source source' : Text) :
    Agree (r.loadWithin source left) (r.loadWithin source' left') := by
  intro number s raw d d' h h'
  induction left generalizing left' number source source' s raw d d' with
  | zero => cases h
  | succ left ih =>
    obtain ⟨_, path, file, hleft, hpath, hfile, hd⟩ := loadWithin_eq_ok.1 h
    obtain ⟨left', path', file', rfl, hpath', hfile', hd'⟩ := loadWithin_eq_ok.1 h'
    cases hleft
    rw [hpath] at hpath'
    cases hpath'
    rw [hfile] at hfile'
    cases hfile'
    obtain ⟨s₁, hpass, hfin⟩ := readSource_eq_ok.1 hd
    obtain ⟨s₂, hpass', hfin'⟩ := readSource_eq_ok.1 hd'
    cases passes_agrees (ih left' path path) hpass hpass'
    rw [hfin] at hfin'
    cases hfin'
    rfl

/-! ### The files that are open -/

/-- The lines in front of the rest have been read, and includes in them could go
`left` files deep. -/
def Stands (r : Reader) (left : Nat) (f : OpenFile) : Prop :=
  ∃ front, f.lines.logicalLines = front ++ f.rest ∧
    r.passes (r.loadWithin f.name left) f.name front { keepsCase := f.keeps } = .ok f.sections

/-- `outer` stands at an include line, and `inner` is the file that it includes. -/
def Includes (r : Reader) (outer inner : OpenFile) : Prop :=
  ∃ number line rest raw, outer.rest = (number, some line) :: rest ∧
    Statement.ofLine line = .includeFile raw ∧
    r.includedPath outer.sections.root raw = .ok inner.name ∧
    r.host.read inner.name = .ok inner.lines ∧ inner.keeps = outer.sections.keepsCase

/-- The files that are open, the innermost first, from a source on; includes in
the innermost one may go `left` files deep. -/
inductive Nested (r : Reader) (source : Text) (lines : Source) : Nat → List OpenFile → Prop
  | root {f : OpenFile} : f.name = source → f.lines = lines → f.keeps = false →
      r.Stands maxIncludeDepth f → Nested r source lines maxIncludeDepth [f]
  | included {left : Nat} {inner outer : OpenFile} {below : List OpenFile} :
      r.Includes outer inner → r.Stands left inner →
      Nested r source lines (left + 1) (outer :: below) →
      Nested r source lines left (inner :: outer :: below)

variable {source : Text} {lines : Source} {left : Nat} {top outer inner : OpenFile}
  {below : List OpenFile}

theorem stands_start (r : Reader) (left : Nat) (name : Text) (keeps : Bool) (lines : Source) :
    r.Stands left (.start name keeps lines) := ⟨[], rfl, rfl⟩

/-- A line has been read. -/
theorem Stands.passed (h : r.Stands left top) {number : Nat} {line : Text}
    {rest : List LogicalLine} (hrest : top.rest = (number, some line) :: rest) {s : Sections}
    (hstep : (r.step (r.loadWithin top.name left) top.name number (Statement.ofLine line)
      top.sections).result = .ok s) : r.Stands left (top.passed s) := by
  obtain ⟨front, hlines, hpass⟩ := h
  obtain ⟨name, lines, keeps, last, _, sections⟩ := top
  cases hrest
  refine ⟨front ++ [(number, some line)], ?_, ?_⟩
  · rw [List.append_assoc]
    exact hlines
  · exact passes_append_eq_ok.2 ⟨sections, hpass, passes_cons_eq_ok.2 ⟨s, hstep, rfl⟩⟩

/-- The innermost file has come to its end. -/
theorem Stands.readSource (h : r.Stands left top) (hrest : top.rest = []) {d : Document}
    (hd : top.sections.finished = .ok d) :
    (r.readSource left top.name top.keeps top.lines).result = .ok d := by
  obtain ⟨front, hlines, hpass⟩ := h
  rw [hrest, List.append_nil] at hlines
  exact readSource_eq_ok.2 ⟨top.sections, hlines ▸ hpass, hd⟩

/-- The file around it goes on. -/
theorem Stands.merged (h : r.Stands (left + 1) outer) (hinner : r.Includes outer inner)
    {d : Document} (hd : (r.readSource left inner.name inner.keeps inner.lines).result = .ok d) :
    r.Stands (left + 1) (outer.merged d) := by
  obtain ⟨number, line, rest, raw, hrest, hst, hpath, hread, hkeeps⟩ := hinner
  have hload : (r.loadWithin outer.name (left + 1) number outer.sections raw).result = .ok d :=
    loadWithin_eq_ok.2 ⟨left, inner.name, inner.lines, rfl, hpath, hread, hkeeps ▸ hd⟩
  refine h.passed hrest ?_
  rw [hst]
  exact Traced.bind_eq_ok.2 ⟨d, hload, rfl⟩

theorem Nested.depth (h : r.Nested source lines left (top :: below)) :
    left + below.length = maxIncludeDepth := by
  generalize hfiles : top :: below = files at h
  induction h generalizing top below with
  | root =>
    cases hfiles
    rfl
  | included _ _ _ ih =>
    cases hfiles
    have houter := ih rfl
    rw [List.length_cons]
    omega

theorem Nested.stands (h : r.Nested source lines left (top :: below)) : r.Stands left top := by
  cases h with
  | root _ _ _ hs => exact hs
  | included _ hs _ => exact hs

/-- The innermost file goes on. -/
theorem Nested.passed (h : r.Nested source lines left (top :: below)) {s : Sections}
    (hs : r.Stands left (top.passed s)) : r.Nested source lines left (top.passed s :: below) := by
  obtain ⟨_, _, _, hpassed⟩ := top.passed_eq s
  rw [hpassed] at hs ⊢
  cases h with
  | root hname hlines hkeeps _ => exact .root hname hlines hkeeps hs
  | included hinc _ hbelow => exact .included hinc hs hbelow

/-- One turn keeps the open files nested. -/
theorem Nested.turn (h : r.Nested source lines left (top :: below)) {top' : OpenFile}
    {below' : List OpenFile}
    (ht : (r.turn (.reading top below)).result = .ok (.reading top' below')) :
    ∃ left', r.Nested source lines left' (top' :: below') := by
  have hdepth := h.depth
  obtain ⟨name, file, keeps, last, rest, s⟩ := top
  cases rest with
  | nil =>
    obtain ⟨d, hd, hnext⟩ := Traced.bind_eq_ok.1 ht
    have hfinished : s.finished = .ok d := mapError_eq_ok.1 hd
    cases h with
    | root => cases hnext
    | included hinc hs hbelow =>
      cases hnext
      exact ⟨_, hbelow.passed (hbelow.stands.merged hinc (hs.readSource rfl hfinished))⟩
  | cons first rest =>
    obtain ⟨number, line | line⟩ := first
    · cases ht
    by_cases hinclude : ∃ raw, Statement.ofLine line = .includeFile raw
    · obtain ⟨raw, hraw⟩ := hinclude
      by_cases hdeep : maxIncludeDepth ≤ below.length
      · rw [turn_tooDeep hraw hdeep] at ht
        cases ht
      rw [turn_include hraw (Nat.not_le.1 hdeep)] at ht
      obtain ⟨file, hfile, ht⟩ := Traced.bind_eq_ok.1 ht
      cases ht
      obtain ⟨hpath, hread⟩ := includedFile_eq_ok.1 hfile
      obtain ⟨left, rfl⟩ : ∃ left', left = left' + 1 := ⟨left - 1, by omega⟩
      exact ⟨left, .included ⟨number, line, rest, raw, rfl, hraw, hpath, hread, rfl⟩
        (r.stands_start ..) h⟩
    · rw [not_exists] at hinclude
      rw [turn_line hinclude (r.loadWithin name left)] at ht
      obtain ⟨s', hstep, ht⟩ := Traced.bind_eq_ok.1 ht
      cases ht
      exact ⟨left, h.passed (h.stands.passed rfl hstep)⟩

theorem turns_succ (n : Nat) (p : Progress) : r.turns (n + 1) p = r.turns n p >>= r.turn := by
  rw [turns_add]
  exact Traced.bind_congr_of_ok fun p' _ => turns_one p'

/-- All files that are ever open are nested. -/
theorem nested_of_turns {n : Nat} (h : (r.turns n (.reading (.start source false lines) [])).result =
    .ok (.reading top below)) : ∃ left, r.Nested source lines left (top :: below) := by
  induction n generalizing top below with
  | zero =>
    cases h
    exact ⟨_, .root rfl rfl rfl (r.stands_start ..)⟩
  | succ n ih =>
    rw [turns_succ] at h
    obtain ⟨p, hp, hturn⟩ := Traced.bind_eq_ok.1 h
    cases p with
    | finished d => cases hturn
    | reading top₁ below₁ =>
      obtain ⟨left₁, hnested⟩ := ih hp
      exact hnested.turn hturn

/-! ### Circles -/

/-- Where includes may go `n` files deep, the file can be read to its end. -/
def Reads (r : Reader) (n : Nat) (f : OpenFile) : Prop :=
  ∃ source d, (r.readSource n source f.keeps f.lines).result = .ok d

/-- A file that is included is read with less depth left, even if it is where
the file around it stands now that it is included. -/
theorem Reads.included {n : Nat} (h : r.Reads n outer) (hs : r.Stands left outer)
    (hinc : r.Includes outer inner) : ∃ n' < n, r.Reads n' inner := by
  obtain ⟨source, d, hd⟩ := h
  obtain ⟨s', hpass, _⟩ := readSource_eq_ok.1 hd
  obtain ⟨front, hlines, hfront⟩ := hs
  obtain ⟨number, line, rest, raw, hrest, hraw, hpath, hread, hkeeps⟩ := hinc
  rw [hlines, hrest] at hpass
  obtain ⟨s₁, hfront', hpass⟩ := passes_append_eq_ok.1 hpass
  obtain ⟨s₂, hstep, _⟩ := passes_cons_eq_ok.1 hpass
  obtain rfl : s₁ = outer.sections :=
    passes_agrees (loadWithin_agrees _ _ _ _) hfront' hfront
  rw [hraw] at hstep
  obtain ⟨d', hload, _⟩ := Traced.bind_eq_ok.1 hstep
  obtain ⟨n', path, file, rfl, hpath', hread', hd'⟩ := loadWithin_eq_ok.1 hload
  rw [hpath] at hpath'
  cases hpath'
  rw [hread] at hread'
  cases hread'
  exact ⟨n', Nat.lt_succ_self n', inner.name, d', hkeeps ▸ hd'⟩

/-- If the source can be read to its end, so can all files that are open. -/
theorem Nested.reads (h : r.Nested source lines left (top :: below)) {d : Document}
    (hd : (r.parse source lines).result = .ok d) : ∃ n, r.Reads n top := by
  generalize hfiles : top :: below = files at h
  induction h generalizing top below with
  | root _ hlines hkeeps _ =>
    cases hfiles
    exact ⟨maxIncludeDepth, source, d, by rw [hlines, hkeeps]; exact hd⟩
  | included hinc _ hbelow ih =>
    cases hfiles
    obtain ⟨n, hreads⟩ := ih rfl
    obtain ⟨n', _, hreads'⟩ := hreads.included hbelow.stands hinc
    exact ⟨n', hreads'⟩

/-- The innermost file is read with less depth left than any below it. -/
theorem Nested.reads_lt (h : r.Nested source lines left (top :: below)) (hmem : outer ∈ below)
    {n : Nat} (hreads : r.Reads n outer) : ∃ n' < n, r.Reads n' top := by
  generalize hfiles : top :: below = files at h
  induction h generalizing top below with
  | root =>
    cases hfiles
    cases hmem
  | included hinc _ hbelow ih =>
    cases hfiles
    rcases List.mem_cons.1 hmem with rfl | hmem
    · exact hreads.included hbelow.stands hinc
    · obtain ⟨n₁, hlt₁, hreads₁⟩ := ih hmem rfl
      obtain ⟨n₂, hlt₂, hreads₂⟩ := hreads₁.included hbelow.stands hinc
      exact ⟨n₂, Nat.lt_trans hlt₂ hlt₁, hreads₂⟩

/-- A file that is included from where it is being read can never be read to its
end. -/
theorem Nested.not_reads_of_circle (h : r.Nested source lines left (top :: below))
    (hmem : outer ∈ below) (hlines : outer.lines = top.lines) (hkeeps : outer.keeps = top.keeps)
    (n : Nat) : ¬ r.Reads n outer := by
  induction n using Nat.strongRecOn with
  | ind n ih =>
    intro hreads
    obtain ⟨n', hlt, source', d, hd⟩ := h.reads_lt hmem hreads
    exact ih n' hlt ⟨source', d, by rw [hlines, hkeeps]; exact hd⟩

/-! ### Reading is bounded -/

/-- Each file that is open has been included by the one below it. -/
theorem Nested.isChain (h : r.Nested source lines left (top :: below)) :
    (top :: below).IsChain fun inner outer => r.Includes outer inner := by
  generalize hfiles : top :: below = files at h
  induction h generalizing top below with
  | root => exact .singleton _
  | included hinc _ _ ih => exact .cons_cons hinc (ih rfl)

/-- A turn that fails is the end of the reading. -/
theorem parse_eq_error_of_turn {n : Nat} {p : Progress}
    (hp : (r.turns n (.reading (.start source false lines) [])).result = .ok p) {e : Error}
    (he : (r.turn p).result = .error e) : (r.parse source lines).result = .error e := by
  obtain ⟨m, hm⟩ := r.exists_turns_eq_parse source lines
  have hfails : ∀ k, (r.turns (n + 1 + k) (.reading (.start source false lines) [])).result =
      .error e := by
    intro k
    rw [turns_add, turns_succ, Traced.result_bind, Traced.result_bind, hp]
    show (do let p ← (r.turn p).result; (r.turns k p).result) = _
    rw [he]
    rfl
  have hends : (r.turns (m + (n + 1)) (.reading (.start source false lines) [])).result =
      (Progress.finished <$> r.parse source lines).result := by
    rw [turns_add, hm, ← bind_pure_comp, bind_assoc]
    refine congrArg _ (Traced.bind_congr_of_ok fun d _ => ?_)
    exact turns_finished _ d
  rw [Nat.add_comm, hfails, ← bind_pure_comp, Traced.result_bind] at hends
  cases hparse : (r.parse source lines).result with
  | error e' =>
    rw [hparse] at hends
    cases hends
    rfl
  | ok d =>
    rw [hparse] at hends
    cases hends

/-- **Reading ends, and includes are bounded.**  Turn by turn, without a bound on
the turns, a reader comes to what reading gives.  On the way no file is more than
32 includes deep; an include line in one that is 32 deep is an error, whatever it
names; and if a file is included from where it is being read, over any number of
others, reading fails. -/
theorem parse_bounded (r : Reader) (source : Text) (lines : Source) :
    (∃ n, r.turns n (.reading (.start source false lines) []) =
      Progress.finished <$> r.parse source lines) ∧
    ∀ n top below,
      (r.turns n (.reading (.start source false lines) [])).result = .ok (.reading top below) →
      (top :: below).IsChain (fun inner outer => r.Includes outer inner) ∧
      below.length ≤ 32 ∧
      (below.length = 32 → ∀ number line rest raw, top.rest = (number, some line) :: rest →
        Statement.ofLine line = .includeFile raw →
          (r.parse source lines).result = .error (.markup top.name number (.tooDeep 32 raw))) ∧
      ∀ outer ∈ below, outer.lines = top.lines → outer.keeps = top.keeps →
        ∀ d, (r.parse source lines).result ≠ .ok d := by
  refine ⟨r.exists_turns_eq_parse source lines, fun n top below hturns => ?_⟩
  obtain ⟨left, hnested⟩ := nested_of_turns hturns
  have hdepth : left + below.length = 32 := hnested.depth
  refine ⟨hnested.isChain, by omega, fun hdeep number line rest raw hrest hraw => ?_,
    fun outer hmem hlines hkeeps d hd => ?_⟩
  · refine parse_eq_error_of_turn hturns ?_
    obtain ⟨name, file, keeps, last, _, s⟩ := top
    cases hrest
    rw [turn_tooDeep hraw (Nat.le_of_eq hdeep.symm)]
    rfl
  · obtain ⟨m, source', d', hread⟩ := hnested.reads hd
    exact hnested.not_reads_of_circle hmem hlines hkeeps m
      ⟨source', d', by rw [hlines, hkeeps]; exact hread⟩

/-- A file that includes another one, inside a section that keeps its case, and
is included by it. -/
theorem parse_bounded_circle :
    let r : Reader := { host := ⟨fun path =>
      if path = "f".toList then .ok (.ofText "<cmdline>\n<<include g>>\n</cmdline>\n".toList)
      else if path = "g".toList then .ok (.ofText "x = 1\n<<include f>>\n".toList)
      else .error .notFound, fun _ => none⟩ }
    let source := "stdin".toList
    let lines := Source.ofText "<<include f>>\n".toList
    (∃ n, r.turns n (.reading (.start source false lines) []) =
      Progress.finished <$> r.parse source lines) ∧
    (∃ n top below, (r.turns n (.reading (.start source false lines) [])).result =
        .ok (.reading top below) ∧ below.map OpenFile.name = ["g".toList, "f".toList, source]) ∧
    (∀ d, (r.parse source lines).result ≠ .ok d) ∧
    (r.parse source lines).result = .error (.markup "g".toList 2 (.tooDeep 32 "f".toList)) := by
  intro r source lines
  obtain ⟨hends, hbounded⟩ := r.parse_bounded source lines
  refine ⟨hends, ⟨5, _, _, rfl, rfl⟩, ?_, ?_⟩
  · obtain ⟨top, outer, below, hturns, hmem, hlines, hkeeps⟩ : ∃ top outer below,
        (r.turns 7 (.reading (.start source false lines) [])).result =
          .ok (.reading top below) ∧ outer ∈ below ∧ outer.lines = top.lines ∧
          outer.keeps = top.keeps := ⟨_, _, _, rfl, .tail _ (.head _), rfl, rfl⟩
    exact (hbounded 7 top below hturns).2.2.2 outer hmem hlines hkeeps
  · obtain ⟨top, below, hturns, hdeep, hname, hrest⟩ : ∃ top below,
        (r.turns 64 (.reading (.start source false lines) [])).result =
          .ok (.reading top below) ∧ below.length = 32 ∧ top.name = "g".toList ∧
          top.rest = [(2, some "<<include f>>".toList)] := ⟨_, _, rfl, rfl, rfl, rfl⟩
    have hraw : Statement.ofLine "<<include f>>".toList = .includeFile "f".toList := by rfl
    rw [← hname]
    exact (hbounded 64 top below hturns).2.2.1 hdeep 2 _ [] _ hrest hraw

end Reader

end Wcl
