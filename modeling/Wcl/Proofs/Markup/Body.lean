import Wcl.Proofs.Document.Merge
import Wcl.Proofs.Markup.Run

/-!
# Section bodies

The grammar of sections, and what a derivation denotes.  A `Body` is a
derivation of the lines inside a section: `statements` are its lines,
`WellNested` the conditions on its tags, and `apply` is the change it makes to
the document of the section it stands in.

The reader keeps no tree but a stack of frames.  `run_statements` says that it
reads the lines of a well-nested body as the body denotes, wherever the body
stands.  For the other direction, `Closes` says what open frames still demand
of the lines to come, and `exists_body_of_run` that every run that closes all
of them has a derivation behind it.
-/

namespace Wcl

/-! ### Derivations -/

namespace Statement

/-- Whether a statement is an assignment or says nothing. -/
def isPlain : Statement → Bool
  | .blank => true
  | .assignment _ _ => true
  | .other _ => true
  | _ => false

/-- What a plain statement does to the section it stands in. -/
def apply (keeps : Bool) : Statement → Document → Document
  | .assignment key value, d =>
    d.insert (if keeps then key else Text.lowerCase key) (.scalar value)
  | _, d => d

end Statement

/-- Whether keys keep their case behind the opening of a section. -/
def keepsOpened (keeps : Bool) (key : Text) : Bool := keeps || caseKeepingKeys.contains key

/-- Whether keys keep their case behind a closing line. -/
def keepsClosed (keeps : Bool) (key : Text) : Bool := keeps && !caseKeepingKeys.contains key

/-- What can stand inside a section, line by line. -/
inductive Body
  | nil
  /-- A line that neither opens nor closes a section. -/
  | plain (statement : Statement) (rest : Body)
  /-- A section. -/
  | single (tag close : Text) (inner rest : Body)
  /-- A section and its label, closed one by one; `outer` stands between the
  two closing lines. -/
  | labelled (tag label closeLabel close : Text) (inner outer rest : Body)
  /-- A section and its label, closed at once by the tag of the section. -/
  | pair (tag label close : Text) (inner rest : Body)

namespace Body

/-- The lines of a body. -/
def statements : Body → List Statement
  | .nil => []
  | .plain statement rest => statement :: rest.statements
  | .single tag close inner rest =>
    .opening tag none :: (inner.statements ++ .closing close :: rest.statements)
  | .labelled tag label closeLabel close inner outer rest =>
    .opening tag (some label) :: (inner.statements ++ .closing closeLabel ::
      (outer.statements ++ .closing close :: rest.statements))
  | .pair tag label close inner rest =>
    .opening tag (some label) :: (inner.statements ++ .closing close :: rest.statements)

/-- The conditions on the tags of a body inside a section of the given name, if
it stands in any: tags are compared in lower case, a section is not opened
directly inside one of its name, and only a label of another name can be closed
together with its section. -/
def WellNested : Option Text → Body → Prop
  | _, .nil => True
  | p, .plain statement rest => statement.isPlain = true ∧ rest.WellNested p
  | p, .single tag close inner rest =>
    p ≠ some (Text.lowerCase tag) ∧ Text.lowerCase close = Text.lowerCase tag ∧
      inner.WellNested (some (Text.lowerCase tag)) ∧ rest.WellNested p
  | p, .labelled tag label closeLabel close inner outer rest =>
    p ≠ some (Text.lowerCase tag) ∧ Text.lowerCase closeLabel = Text.lowerCase label ∧
      Text.lowerCase close = Text.lowerCase tag ∧
      inner.WellNested (some (Text.lowerCase label)) ∧
      outer.WellNested (some (Text.lowerCase tag)) ∧ rest.WellNested p
  | p, .pair tag label close inner rest =>
    p ≠ some (Text.lowerCase tag) ∧ Text.lowerCase label ≠ Text.lowerCase tag ∧
      Text.lowerCase close = Text.lowerCase tag ∧
      inner.WellNested (some (Text.lowerCase label)) ∧ rest.WellNested p

instance decidableWellNested : (p : Option Text) → (b : Body) → Decidable (b.WellNested p)
  | _, .nil => .isTrue trivial
  | p, .plain _ rest =>
    have := decidableWellNested p rest
    inferInstanceAs (Decidable (_ ∧ _))
  | p, .single tag _ inner rest =>
    have := decidableWellNested (some (Text.lowerCase tag)) inner
    have := decidableWellNested p rest
    inferInstanceAs (Decidable (_ ∧ _ ∧ _ ∧ _))
  | p, .labelled tag label _ _ inner outer rest =>
    have := decidableWellNested (some (Text.lowerCase label)) inner
    have := decidableWellNested (some (Text.lowerCase tag)) outer
    have := decidableWellNested p rest
    inferInstanceAs (Decidable (_ ∧ _ ∧ _ ∧ _ ∧ _ ∧ _))
  | p, .pair _ label _ inner rest =>
    have := decidableWellNested (some (Text.lowerCase label)) inner
    have := decidableWellNested p rest
    inferInstanceAs (Decidable (_ ∧ _ ∧ _ ∧ _ ∧ _))

theorem isDirective_of_isPlain {s : Statement} (h : s.isPlain = true) : s.isDirective = false := by
  cases s with
  | includeFile path => cases h
  | includeCall name keys => cases h
  | badDirective line => cases h
  | _ => rfl

/-- A body has no directives. -/
theorem WellNested.isDirective {b : Body} {p : Option Text} (h : b.WellNested p) :
    ∀ s ∈ b.statements, s.isDirective = false := by
  induction b generalizing p with
  | nil => exact fun s hs => absurd hs List.not_mem_nil
  | plain statement rest ih =>
    rw [statements, List.forall_mem_cons]
    exact ⟨isDirective_of_isPlain h.1, ih h.2⟩
  | single tag close inner rest ihi ih =>
    obtain ⟨_, _, hinner, hrest⟩ := h
    rw [statements, List.forall_mem_cons, List.forall_mem_append, List.forall_mem_cons]
    exact ⟨rfl, ihi hinner, rfl, ih hrest⟩
  | labelled tag label closeLabel close inner outer rest ihi iho ih =>
    obtain ⟨_, _, _, hinner, houter, hrest⟩ := h
    rw [statements, List.forall_mem_cons, List.forall_mem_append, List.forall_mem_cons,
      List.forall_mem_append, List.forall_mem_cons]
    exact ⟨rfl, ihi hinner, rfl, iho houter, rfl, ih hrest⟩
  | pair tag label close inner rest ihi ih =>
    obtain ⟨_, _, _, hinner, hrest⟩ := h
    rw [statements, List.forall_mem_cons, List.forall_mem_append, List.forall_mem_cons]
    exact ⟨rfl, ihi hinner, rfl, ih hrest⟩

/-- Whether keys keep their case behind a body. -/
def keepsAfter : Body → Bool → Bool
  | .nil, keeps => keeps
  | .plain _ rest, keeps => rest.keepsAfter keeps
  | .single tag _ inner rest, keeps =>
    let key := Text.lowerCase tag
    rest.keepsAfter (keepsClosed (inner.keepsAfter (keepsOpened keeps key)) key)
  | .labelled tag label _ _ inner outer rest, keeps =>
    let key := Text.lowerCase tag
    let keepsInner := keepsClosed (inner.keepsAfter (keepsOpened keeps key)) (Text.lowerCase label)
    rest.keepsAfter (keepsClosed (outer.keepsAfter keepsInner) key)
  | .pair tag _ _ inner rest, keeps =>
    let key := Text.lowerCase tag
    rest.keepsAfter (keepsClosed (inner.keepsAfter (keepsOpened keeps key)) key)

/-- The change that a body makes to the document of the section it stands in. -/
def apply : Body → (keeps : Bool) → Document → Document
  | .nil, _, d => d
  | .plain statement rest, keeps, d => rest.apply keeps (statement.apply keeps d)
  | .single tag _ inner rest, keeps, d =>
    let key := Text.lowerCase tag
    let inside := keepsOpened keeps key
    rest.apply (keepsClosed (inner.keepsAfter inside) key)
      (Document.modifyAt (inner.apply inside) [key] d)
  | .labelled tag label _ _ inner outer rest, keeps, d =>
    let key := Text.lowerCase tag
    let inside := keepsOpened keeps key
    let between := keepsClosed (inner.keepsAfter inside) (Text.lowerCase label)
    rest.apply (keepsClosed (outer.keepsAfter between) key)
      (Document.modifyAt
        (fun s => outer.apply between
          (Document.modifyAt (inner.apply inside) [Text.lowerCase label] s))
        [key] d)
  | .pair tag label _ inner rest, keeps, d =>
    let key := Text.lowerCase tag
    let inside := keepsOpened keeps key
    rest.apply (keepsClosed (inner.keepsAfter inside) key)
      (Document.modifyAt (inner.apply inside) [key, Text.lowerCase label] d)

end Body

/-! ### Opening and closing -/

/-- The path that frames lead along. -/
def Frame.path (frames : List Frame) : List Text := frames.reverse.map Frame.key

@[simp] theorem Frame.path_cons (frame : Frame) (frames : List Frame) :
    Frame.path (frame :: frames) = Frame.path frames ++ [frame.key] := by
  simp [Frame.path]

/-- The name of the innermost section, if one is open. -/
def Frame.enclosing (frames : List Frame) : Option Text := frames.head?.map Frame.key

theorem any_head?_iff {frames : List Frame} {key : Text} :
    frames.head?.any (·.key = key) = true ↔ Frame.enclosing frames = some key := by
  cases frames <;> simp [Frame.enclosing]

namespace Sections

/-- The open sections with a change to the innermost one. -/
def changed (f : Document → Document) (root : Document) (frames : List Frame) (keeps : Bool) :
    Sections :=
  ⟨Document.modifyAt f (Frame.path frames) root, frames, keeps⟩

variable (f : Document → Document) (root : Document) (frames : List Frame) (keeps : Bool)

theorem step_plain {statement : Statement} (h : statement.isPlain = true) :
    (changed f root frames keeps).step statement =
      .ok (changed (fun d => statement.apply keeps (f d)) root frames keeps) := by
  cases statement with
  | blank => rfl
  | other line => rfl
  | assignment key value =>
    have htwice := Document.modifyAt_modifyAt (Statement.apply keeps (.assignment key value)) f
      (Frame.path frames) root
    exact congrArg (fun root => Except.ok (Sections.mk root frames keeps)) htwice
  | _ => cases h

theorem step_opening {frames : List Frame} {tag : Text}
    (h : Frame.enclosing frames ≠ some (Text.lowerCase tag)) :
    (Sections.mk root frames keeps).step (.opening tag none) =
      .ok (changed id root (⟨Text.lowerCase tag, false⟩ :: frames)
        (keepsOpened keeps (Text.lowerCase tag))) := by
  rw [step, opened, if_neg (mt any_head?_iff.1 h)]
  rfl

theorem step_opening_label {frames : List Frame} {tag : Text}
    (h : Frame.enclosing frames ≠ some (Text.lowerCase tag)) (label : Text) :
    (Sections.mk root frames keeps).step (.opening tag (some label)) =
      .ok (changed id root (⟨Text.lowerCase label, true⟩ :: ⟨Text.lowerCase tag, false⟩ :: frames)
        (keepsOpened keeps (Text.lowerCase tag))) := by
  rw [step, opened, if_neg (mt any_head?_iff.1 h)]
  -- The label is made in a section that has just been made.
  have hmade := Document.modifyAt_inside id id (Frame.path (⟨Text.lowerCase tag, false⟩ :: frames))
    [Text.lowerCase label] root
  have hboth := Document.modifyAt_append id
    (Frame.path (⟨Text.lowerCase tag, false⟩ :: frames)) [Text.lowerCase label] root
  rw [← Frame.path_cons ⟨Text.lowerCase label, true⟩] at hmade hboth
  exact congrArg (fun root => Except.ok (Sections.mk root _ _)) (hmade.trans hboth.symm)

theorem enclosing_of_opened {s s' : Sections} {tag : Text} {label : Option Text}
    (h : s.opened tag label = .ok s') : Frame.enclosing s.frames ≠ some (Text.lowerCase tag) := by
  intro he
  rw [opened, if_pos (any_head?_iff.2 he)] at h
  cases h

theorem closed_top {frame : Frame} {tag : Text} (h : Text.lowerCase tag = frame.key) :
    (Sections.mk root (frame :: frames) keeps).closed tag =
      .ok ⟨root, frames, keepsClosed keeps frame.key⟩ := by
  simp [closed, h, keepsClosed]

theorem closed_both {label outer : Frame} {tag : Text} (hl : label.isLabel = true)
    (hne : label.key ≠ outer.key) (h : Text.lowerCase tag = outer.key) :
    (Sections.mk root (label :: outer :: frames) keeps).closed tag =
      .ok ⟨root, frames, keepsClosed keeps outer.key⟩ := by
  simp [closed, h, hl, hne, keepsClosed]

/-- Seen from outside, what was changed is the section that has been closed. -/
theorem step_closing {frame : Frame} {tag : Text} (h : Text.lowerCase tag = frame.key) :
    (changed f root (frame :: frames) keeps).step (.closing tag) =
      .ok (changed (Document.modifyAt f [frame.key]) root frames
        (keepsClosed keeps frame.key)) := by
  have hpath := Document.modifyAt_append f (Frame.path frames) [frame.key] root
  rw [← Frame.path_cons] at hpath
  rw [step, changed, closed_top _ frames keeps h, hpath]
  rfl

theorem step_closing_both {label outer : Frame} {tag : Text} (hl : label.isLabel = true)
    (hne : label.key ≠ outer.key) (h : Text.lowerCase tag = outer.key) :
    (changed f root (label :: outer :: frames) keeps).step (.closing tag) =
      .ok (changed (Document.modifyAt f [outer.key, label.key]) root frames
        (keepsClosed keeps outer.key)) := by
  have hpath := Document.modifyAt_append f (Frame.path frames) [outer.key, label.key] root
  rw [List.append_cons, ← Frame.path_cons, ← Frame.path_cons] at hpath
  rw [step, changed, closed_both _ frames keeps hl hne h, hpath]
  rfl

theorem changed_changed (g : Document → Document) (keeps' : Bool) :
    changed g (changed f root frames keeps).root frames keeps' =
      changed (fun d => g (f d)) root frames keeps' :=
  congrArg (Sections.mk · frames keeps') (Document.modifyAt_modifyAt g f (Frame.path frames) root)

/-- The innermost section is closed, or its label together with it. -/
theorem frames_of_closed {s s' : Sections} {tag : Text} (h : s.closed tag = .ok s') :
    (∃ frame, s.frames = frame :: s'.frames ∧ Text.lowerCase tag = frame.key) ∨
      ∃ label outer, s.frames = label :: outer :: s'.frames ∧ label.isLabel = true ∧
        label.key ≠ outer.key ∧ Text.lowerCase tag = outer.key := by
  obtain ⟨root, frames, keeps⟩ := s
  cases frames with
  | nil => cases h
  | cons top below =>
    by_cases htop : top.key = Text.lowerCase tag
    · rw [closed_top root below keeps htop.symm] at h
      cases h
      exact .inl ⟨top, rfl, htop.symm⟩
    · cases hl : top.isLabel with
      | false => simp [closed, htop, hl] at h
      | true =>
        cases below with
        | nil => simp [closed, htop] at h
        | cons outer rest =>
          by_cases hout : outer.key = Text.lowerCase tag
          · have hne : top.key ≠ outer.key := fun he => htop (he.trans hout)
            rw [closed_both root rest keeps hl hne hout.symm] at h
            cases h
            exact .inr ⟨top, outer, rfl, hl, hne, hout.symm⟩
          · simp [closed, htop, hl, hout] at h

end Sections

/-! ### The reader follows a body -/

/-- Where a body stands is given by the open frames.  The change `f` has been
made to the innermost section before; the lines make the body's change after
it. -/
theorem run_statements {b : Body} (frames : List Frame) (h : b.WellNested (Frame.enclosing frames))
    (f : Document → Document) (root : Document) (keeps : Bool) :
    Sections.run b.statements (Sections.changed f root frames keeps) =
      .ok (Sections.changed (fun d => b.apply keeps (f d)) root frames (b.keepsAfter keeps)) := by
  induction b generalizing frames f root keeps with
  | nil => rfl
  | plain statement rest ih =>
    obtain ⟨hs, hrest⟩ := h
    rw [Body.statements, Sections.run_cons_of_step (Sections.step_plain f root frames keeps hs)]
    exact ih frames hrest _ root keeps
  | single tag close inner rest ihi ih =>
    obtain ⟨hne, hclose, hinner, hrest⟩ := h
    have hopen := Sections.step_opening (Sections.changed f root frames keeps).root keeps hne
    have hrun := ihi (⟨Text.lowerCase tag, false⟩ :: frames) hinner
    rw [Body.statements]
    refine (Sections.run_cons_of_step hopen _).trans ?_
    rw [Sections.run_append_of_run (hrun _ _ _),
      Sections.run_cons_of_step (Sections.step_closing _ _ _ _ hclose), Sections.changed_changed]
    exact ih frames hrest _ root _
  | labelled tag label closeLabel close inner outer rest ihi iho ih =>
    obtain ⟨hne, hcloseLabel, hclose, hinner, houter, hrest⟩ := h
    have hopen :=
      Sections.step_opening_label (Sections.changed f root frames keeps).root keeps hne label
    have hrun := ihi (⟨Text.lowerCase label, true⟩ :: ⟨Text.lowerCase tag, false⟩ :: frames) hinner
    have hrunOuter := iho (⟨Text.lowerCase tag, false⟩ :: frames) houter
    rw [Body.statements]
    refine (Sections.run_cons_of_step hopen _).trans ?_
    rw [Sections.run_append_of_run (hrun _ _ _),
      Sections.run_cons_of_step (Sections.step_closing _ _ _ _ hcloseLabel),
      Sections.run_append_of_run (hrunOuter _ _ _),
      Sections.run_cons_of_step (Sections.step_closing _ _ _ _ hclose), Sections.changed_changed]
    exact ih frames hrest _ root _
  | pair tag label close inner rest ihi ih =>
    obtain ⟨hne, hlabel, hclose, hinner, hrest⟩ := h
    have hopen :=
      Sections.step_opening_label (Sections.changed f root frames keeps).root keeps hne label
    have hrun := ihi (⟨Text.lowerCase label, true⟩ :: ⟨Text.lowerCase tag, false⟩ :: frames) hinner
    rw [Body.statements]
    refine (Sections.run_cons_of_step hopen _).trans ?_
    rw [Sections.run_append_of_run (hrun _ _ _),
      Sections.run_cons_of_step (Sections.step_closing_both _ _ _ _ rfl hlabel hclose),
      Sections.changed_changed]
    exact ih frames hrest _ root _

/-- A well-nested body is read from the empty document to the end. -/
theorem run_body {b : Body} (h : b.WellNested none) :
    Sections.run b.statements {} = .ok ⟨b.apply false .empty, [], b.keepsAfter false⟩ :=
  run_statements [] h id .empty false

/-! ### Every run has a derivation -/

/-- What open frames demand of the lines to come: a line that closes the
innermost one, or a label and its section, a body for what is then the
innermost section, and so on until nothing is open. -/
inductive Closes : List Frame → List Statement → Prop
  | done : Closes [] []
  | top {frame : Frame} {frames : List Frame} {tag : Text} {b : Body} {rest : List Statement} :
      Text.lowerCase tag = frame.key → b.WellNested (Frame.enclosing frames) →
      Closes frames rest → Closes (frame :: frames) (.closing tag :: (b.statements ++ rest))
  | both {label outer : Frame} {frames : List Frame} {tag : Text} {b : Body}
      {rest : List Statement} : label.isLabel = true → label.key ≠ outer.key →
      Text.lowerCase tag = outer.key → b.WellNested (Frame.enclosing frames) →
      Closes frames rest →
      Closes (label :: outer :: frames) (.closing tag :: (b.statements ++ rest))

/-- The lines that are left start with a body for the innermost section. -/
def Completes (frames : List Frame) (statements : List Statement) : Prop :=
  ∃ b : Body, b.WellNested (Frame.enclosing frames) ∧
    ∃ rest, Closes frames rest ∧ statements = b.statements ++ rest

theorem completes_plain {frames : List Frame} {statement : Statement} {rest : List Statement}
    (hs : statement.isPlain = true) (h : Completes frames rest) :
    Completes frames (statement :: rest) := by
  obtain ⟨b, hb, rest, hrest, rfl⟩ := h
  exact ⟨.plain statement b, ⟨hs, hb⟩, rest, hrest, rfl⟩

theorem completes_opening {frames : List Frame} {tag : Text} {rest : List Statement}
    (hne : Frame.enclosing frames ≠ some (Text.lowerCase tag))
    (h : Completes (⟨Text.lowerCase tag, false⟩ :: frames) rest) :
    Completes frames (.opening tag none :: rest) := by
  obtain ⟨inner, hinner, rest, hrest, rfl⟩ := h
  cases hrest with
  | @top _ _ close b rest hclose hb hrest =>
    exact ⟨.single tag close inner b, ⟨hne, hclose, hinner, hb⟩, rest, hrest,
      by simp [Body.statements]⟩
  | both hl => cases hl

theorem completes_opening_label {frames : List Frame} {tag label : Text} {rest : List Statement}
    (hne : Frame.enclosing frames ≠ some (Text.lowerCase tag))
    (h : Completes (⟨Text.lowerCase label, true⟩ :: ⟨Text.lowerCase tag, false⟩ :: frames) rest) :
    Completes frames (.opening tag (some label) :: rest) := by
  obtain ⟨inner, hinner, rest, hrest, rfl⟩ := h
  cases hrest with
  | @top _ _ closeLabel outer rest hcloseLabel houter hrest =>
    cases hrest with
    | @top _ _ close b rest hclose hb hrest =>
      exact ⟨.labelled tag label closeLabel close inner outer b,
        ⟨hne, hcloseLabel, hclose, hinner, houter, hb⟩, rest, hrest, by simp [Body.statements]⟩
    | both hl => cases hl
  | @both _ _ _ close b rest _ hlabel hclose hb hrest =>
    exact ⟨.pair tag label close inner b, ⟨hne, hlabel, hclose, hinner, hb⟩, rest, hrest,
      by simp [Body.statements]⟩

theorem completes_closing {s s' : Sections} {tag : Text} {rest : List Statement}
    (hs : s.closed tag = .ok s') (h : Completes s'.frames rest) :
    Completes s.frames (.closing tag :: rest) := by
  obtain ⟨b, hb, rest, hrest, rfl⟩ := h
  refine ⟨.nil, trivial, _, ?_, rfl⟩
  rcases Sections.frames_of_closed hs with htop | hboth
  · obtain ⟨frame, hframes, htag⟩ := htop
    rw [hframes]
    exact .top htag hb hrest
  · obtain ⟨label, outer, hframes, hl, hne, htag⟩ := hboth
    rw [hframes]
    exact .both hl hne htag hb hrest

theorem completes_of_run {statements : List Statement}
    (hd : ∀ st ∈ statements, st.isDirective = false) {s s' : Sections}
    (h : Sections.run statements s = .ok s') (hs : s'.frames = []) :
    Completes s.frames statements := by
  induction statements generalizing s with
  | nil =>
    cases h
    rw [hs]
    exact ⟨.nil, trivial, [], .done, rfl⟩
  | cons statement rest ih =>
    rw [Sections.run_cons] at h
    cases hstep : s.step statement with
    | error f => rw [hstep] at h; cases h
    | ok s₁ =>
      rw [hstep] at h
      have hrest := ih (fun st hst => hd st (List.mem_cons_of_mem _ hst)) h
      cases statement with
      | closing tag => exact completes_closing hstep hrest
      | opening tag label =>
        have hne := Sections.enclosing_of_opened hstep
        have hmk : s = ⟨s.root, s.frames, s.keepsCase⟩ := rfl
        cases label with
        | none =>
          rw [hmk, Sections.step_opening _ _ hne] at hstep
          cases hstep
          exact completes_opening hne hrest
        | some label =>
          rw [hmk, Sections.step_opening_label _ _ hne] at hstep
          cases hstep
          exact completes_opening_label hne hrest
      | blank => cases hstep; exact completes_plain rfl hrest
      | assignment key value => cases hstep; exact completes_plain rfl hrest
      | other line => cases hstep; exact completes_plain rfl hrest
      | _ => cases hd _ (List.mem_cons_self ..)

/-- A run that leaves nothing open has read a well-nested body. -/
theorem exists_body_of_finished {statements : List Statement}
    (hd : ∀ st ∈ statements, st.isDirective = false) {d : Document}
    (h : Sections.run statements {} >>= Sections.finished = .ok d) :
    ∃ b : Body, b.WellNested none ∧ b.statements = statements := by
  cases hrun : Sections.run statements {} with
  | error fault =>
    rw [hrun] at h
    cases h
  | ok s =>
    rw [hrun] at h
    obtain ⟨b, hb, rest, hrest, rfl⟩ :=
      completes_of_run hd hrun (Sections.finished_eq_ok_iff.1 h).1
    cases hrest
    exact ⟨b, hb, (List.append_nil _).symm⟩

end Wcl
