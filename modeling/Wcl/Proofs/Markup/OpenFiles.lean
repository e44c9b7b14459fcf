import Wcl.Markup.Reader

/-!
# Reading turn by turn

A reader that includes a file leaves the file it is in, and comes back to it
with a document.  `Reader.turn` is one turn of a reader that keeps the files it
has left on a stack: it treats the next line of the innermost file, begins with
the file of an include, or goes back at the end of one.  Nothing bounds the turns
but the limit that an include line is checked against.

After some number of turns such a reader is done, and what it has then is what
`Reader.parse` gives, with the same log: `Reader.exists_turns_eq_parse`.
-/

namespace Wcl

/-! ### Traced computations one after another -/

namespace Traced

variable {α β γ : Type}

@[ext] theorem ext {x y : Traced α} (hresult : x.result = y.result) (hlog : x.log = y.log) :
    x = y := by
  cases x
  cases y
  congr

theorem id_map (x : Traced α) : id <$> x = x := by
  obtain ⟨_ | a, log⟩ := x
  · rfl
  · exact ext rfl (List.append_nil log)

theorem pure_bind (a : α) (f : α → Traced β) : pure a >>= f = f a := rfl

theorem bind_assoc (x : Traced α) (f : α → Traced β) (g : β → Traced γ) :
    x >>= f >>= g = x >>= fun a => f a >>= g := by
  refine ext ?_ ?_
  · simp only [result_bind]
    cases x.result <;> rfl
  · simp only [log_bind, result_bind]
    cases x.result with
    | error e => exact List.append_nil _
    | ok a => exact List.append_assoc ..

instance : LawfulMonad Traced := LawfulMonad.mk' Traced id_map pure_bind bind_assoc

/-- If every result needs some number, some number is right for the one there is. -/
theorem exists_bind_eq {x : Traced α} {f : Nat → α → Traced β} {g : α → Traced β}
    (h : ∀ a, ∃ n, f n a = g a) : ∃ n, x >>= f n = x >>= g := by
  cases hx : x.result with
  | error e =>
    refine ⟨0, bind_congr_of_ok fun a ha => ?_⟩
    rw [hx] at ha
    cases ha
  | ok a =>
    obtain ⟨n, hn⟩ := h a
    refine ⟨n, bind_congr_of_ok fun a' ha' => ?_⟩
    rw [hx] at ha'
    cases ha'
    exact hn

end Traced

/-! ### Turns -/

/-- A file that is being read. -/
structure OpenFile where
  /-- What the file is called in messages. -/
  name : Text
  lines : Source
  /-- Whether its keys keep their case from the start. -/
  keeps : Bool
  /-- The number of the line before. -/
  last : Nat
  /-- The lines that have not been read. -/
  rest : List LogicalLine
  sections : Sections

namespace OpenFile

/-- A file of which nothing has been read. -/
def start (name : Text) (keeps : Bool) (lines : Source) : OpenFile :=
  ⟨name, lines, keeps, 0, lines.logicalLines, { keepsCase := keeps }⟩

/-- Behind its next line, which has changed the sections. -/
def passed (f : OpenFile) (s : Sections) : OpenFile :=
  match f.rest with
  | [] => f
  | (number, _) :: rest => { f with last := number, rest, sections := s }

theorem passed_eq (f : OpenFile) (s : Sections) :
    ∃ last rest sections, f.passed s = { f with last, rest, sections } := by
  obtain ⟨name, lines, keeps, last, _ | ⟨_, rest⟩, sections⟩ := f
  · exact ⟨last, [], sections, rfl⟩
  · exact ⟨_, rest, s, rfl⟩

/-- Behind its next line, which has included a document. -/
def merged (f : OpenFile) (d : Document) : OpenFile :=
  f.passed { f.sections with root := f.sections.root.update d }

end OpenFile

/-- How far a reader is. -/
inductive Progress
  /-- Files are being read: one of them, and the files that it has been included
  from, which stand at the line of the include. -/
  | reading (top : OpenFile) (below : List OpenFile)
  | finished (d : Document)

namespace Progress

/-- A file has come to its end. -/
def returned (d : Document) : List OpenFile → Progress
  | [] => .finished d
  | outer :: below => .reading (outer.merged d) below

end Progress

namespace Reader

/-- The path of the file that an include line names, and the file. -/
def includedFile (r : Reader) (source : Text) (number depth : Nat) (s : Sections) (raw : Text) :
    Traced (Text × Source) := do
  let path ← r.includePath source number s.root raw
  let file ← r.openFile depth s.keepsCase path
  return (path, file)

/-- One turn of a reader. -/
def turn (r : Reader) : Progress → Traced Progress
  | .finished d => pure (.finished d)
  | .reading top below =>
    match top.rest with
    | [] => do
      let d ← .ofExcept (top.sections.finished.mapError (.markup top.name top.last))
      return .returned d below
    | (_, none) :: _ => .fail (.badFile top.name .undecodable)
    | (number, some line) :: _ =>
      match Statement.ofLine line with
      | .includeFile raw =>
        if maxIncludeDepth ≤ below.length then
          .fail (.markup top.name number (.tooDeep maxIncludeDepth raw))
        else do
          let file ← r.includedFile top.name number (below.length + 1) top.sections raw
          return .reading (.start file.1 top.sections.keepsCase file.2) (top :: below)
      | statement => do
        -- This is no include, so there is nothing to load.
        let s ← r.step (fun _ _ _ => pure .empty) top.name number statement top.sections
        return .reading (top.passed s) below

/-- Turns one after another. -/
def turns (r : Reader) : Nat → Progress → Traced Progress
  | 0, p => pure p
  | n + 1, p => do
    let p ← r.turn p
    r.turns n p

variable {r : Reader}

theorem turns_add (m n : Nat) (p : Progress) : r.turns (m + n) p = r.turns m p >>= r.turns n := by
  induction m generalizing p with
  | zero => rw [Nat.zero_add, turns, pure_bind]
  | succ m ih =>
    rw [Nat.succ_add, turns, turns, bind_assoc]
    exact Traced.bind_congr_of_ok fun p' _ => ih p'

theorem turns_one (p : Progress) : r.turns 1 p = r.turn p := bind_pure (r.turn p)

theorem turns_finished (n : Nat) (d : Document) :
    r.turns n (.finished d) = pure (.finished d) := by
  induction n with
  | zero => rfl
  | succ n ih => rw [turns, turn, pure_bind, ih]

/-! ### The turns of a source -/

/-- How the file of an include is loaded where includes may go `left` files deep. -/
def loadWithin (r : Reader) (source : Text) (left : Nat) (number : Nat) (s : Sections)
    (raw : Text) : Traced Document :=
  match left with
  | 0 => .fail (.markup source number (.tooDeep maxIncludeDepth raw))
  | left + 1 => do
    let path ← r.includePath source number s.root raw
    let file ← r.openFile (maxIncludeDepth - left) s.keepsCase path
    r.readSource left path s.keepsCase file

theorem loadWithin_succ (source : Text) (left number : Nat) (s : Sections) (raw : Text) :
    r.loadWithin source (left + 1) number s raw =
      r.includedFile source number (maxIncludeDepth - left) s raw >>= fun file =>
        r.readSource left file.1 s.keepsCase file.2 := by
  simp only [loadWithin, includedFile, bind_assoc, pure_bind]

theorem readSource_eq (left : Nat) (source : Text) (keeps : Bool) (lines : Source) :
    r.readSource left source keeps lines =
      r.readLines (r.loadWithin source left) source 0 lines.logicalLines
        { keepsCase := keeps } := by
  cases left <;> rfl

/-- What is loaded matters to an include only. -/
theorem step_eq_of_ne {st : Statement} (h : ∀ raw, st ≠ .includeFile raw)
    (load load' : Nat → Sections → Text → Traced Document) (source : Text) (number : Nat)
    (s : Sections) : r.step load source number st s = r.step load' source number st s := by
  cases st with
  | includeFile raw => exact absurd rfl (h raw)
  | _ => rfl

section

variable {name : Text} {lines : Source} {keeps : Bool} {last number : Nat} {s : Sections}
  {line : Text} {rest : List LogicalLine} {below : List OpenFile}

theorem turn_line (h : ∀ raw, Statement.ofLine line ≠ .includeFile raw)
    (load : Nat → Sections → Text → Traced Document) :
    r.turn (.reading ⟨name, lines, keeps, last, (number, some line) :: rest, s⟩ below) =
      r.step load name number (Statement.ofLine line) s >>= fun s' =>
        pure (.reading ⟨name, lines, keeps, number, rest, s'⟩ below) := by
  rw [r.step_eq_of_ne h load fun _ _ _ => pure .empty]
  simp only [turn]
  rfl

theorem turn_tooDeep {raw : Text} (h : Statement.ofLine line = .includeFile raw)
    (hdepth : maxIncludeDepth ≤ below.length) :
    r.turn (.reading ⟨name, lines, keeps, last, (number, some line) :: rest, s⟩ below) =
      .fail (.markup name number (.tooDeep maxIncludeDepth raw)) := by
  simp only [turn, h, if_pos hdepth]

theorem turn_include {raw : Text} (h : Statement.ofLine line = .includeFile raw)
    (hdepth : below.length < maxIncludeDepth) :
    r.turn (.reading ⟨name, lines, keeps, last, (number, some line) :: rest, s⟩ below) =
      r.includedFile name number (below.length + 1) s raw >>= fun file =>
        pure (.reading (.start file.1 s.keepsCase file.2)
          (⟨name, lines, keeps, last, (number, some line) :: rest, s⟩ :: below)) := by
  simp only [turn, h, if_neg (Nat.not_le.2 hdepth)]

end

/-- Turns go on where others have come to. -/
theorem exists_turns_into {α : Type} {x : Traced α} {next : α → Progress}
    {g : α → Traced Progress} {m : Nat} {p : Progress}
    (h : r.turns m p = x >>= fun a => pure (next a)) (hnext : ∀ a, ∃ n, r.turns n (next a) = g a) :
    ∃ n, r.turns n p = x >>= g := by
  obtain ⟨n, hn⟩ := Traced.exists_bind_eq (x := x) hnext
  refine ⟨m + n, ?_⟩
  rw [turns_add, h, bind_assoc]
  exact hn

/-- A file is read to its end, if the files that it includes are. -/
theorem exists_turns_of_included {left : Nat} {below : List OpenFile}
    (hdepth : left + below.length = maxIncludeDepth)
    (hincluded : ∀ left', left = left' + 1 → ∀ top path keeps file,
      ∃ n, r.turns n (.reading (.start path keeps file) (top :: below)) =
        r.readSource left' path keeps file >>= fun d => pure (.reading (top.merged d) below))
    (name : Text) (lines : Source) (keeps : Bool) (last : Nat) (rest : List LogicalLine)
    (s : Sections) :
    ∃ n, r.turns n (.reading ⟨name, lines, keeps, last, rest, s⟩ below) =
      r.readLines (r.loadWithin name left) name last rest s >>= fun d =>
        pure (.returned d below) := by
  induction rest generalizing last s with
  | nil => exact ⟨1, turns_one _⟩
  | cons first rest ih =>
    obtain ⟨number, line | line⟩ := first
    · exact ⟨1, turns_one _⟩
    by_cases hinclude : ∃ raw, Statement.ofLine line = .includeFile raw
    · obtain ⟨raw, hraw⟩ := hinclude
      cases left with
      | zero =>
        refine ⟨1, ?_⟩
        rw [turns_one, turn_tooDeep hraw (by omega), readLines, hraw]
        rfl
      | succ left =>
        have hlevel : maxIncludeDepth - left = below.length + 1 := by omega
        simp only [readLines, hraw, step, loadWithin_succ, hlevel, bind_assoc, pure_bind]
        -- The file is begun and read to its end, and then the lines behind the include.
        refine exists_turns_into ((turns_one _).trans (turn_include hraw (by omega))) fun file => ?_
        obtain ⟨_, hfile⟩ := hincluded left rfl _ file.1 s.keepsCase file.2
        exact exists_turns_into hfile fun d => ih number { s with root := s.root.update d }
    · rw [not_exists] at hinclude
      rw [readLines, bind_assoc]
      exact exists_turns_into ((turns_one _).trans (turn_line hinclude _)) (ih number)

/-- A file is read to its end, with all that it includes. -/
theorem exists_turns_eq_readSource {left : Nat} {below : List OpenFile}
    (hdepth : left + below.length = maxIncludeDepth) (name : Text) (keeps : Bool)
    (lines : Source) :
    ∃ n, r.turns n (.reading (.start name keeps lines) below) =
      r.readSource left name keeps lines >>= fun d => pure (.returned d below) := by
  induction left generalizing below name keeps lines with
  | zero =>
    rw [readSource_eq]
    exact exists_turns_of_included hdepth (fun left' h => by omega) ..
  | succ left ih =>
    rw [readSource_eq]
    refine exists_turns_of_included hdepth (fun left' h top path keeps file => ?_) ..
    obtain rfl : left = left' := by omega
    have hdeeper : left + (top :: below).length = maxIncludeDepth := by
      rw [List.length_cons]
      omega
    exact ih hdeeper path keeps file

/-- **Reading comes to an end**, without any bound on the turns. -/
theorem exists_turns_eq_parse (r : Reader) (source : Text) (lines : Source) :
    ∃ n, r.turns n (.reading (.start source false lines) []) =
      Progress.finished <$> r.parse source lines := by
  have hdepth : maxIncludeDepth + ([] : List OpenFile).length = maxIncludeDepth := rfl
  obtain ⟨n, hn⟩ := r.exists_turns_eq_readSource hdepth source false lines
  exact ⟨n, hn.trans (bind_pure_comp _ _)⟩

end Reader

end Wcl
