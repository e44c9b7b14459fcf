import Wcl.Proofs.Document.Paths
import Wcl.Proofs.Markup.Built

/-!
# Paths that a text assigns and opens

Every assignment gives a scalar to a path of keys, and every opening line opens
one path or two as sections (`Sections.accesses`).  A text reopens no scalar if
it opens no path that it has assigned before; then the document it builds never
has to give a scalar up for a section.

So such a body makes the same of a document into which another one is merged as
it makes of that one, merged afterwards: `Body.apply_update`.
-/

namespace Wcl

/-! ### Accesses -/

/-- What a statement does to a path of keys. -/
inductive Access
  | assigned (path : List Text)
  | opened (path : List Text)
  deriving DecidableEq, Repr

/-- An access below another path. -/
def Access.under (path : List Text) : Access → Access
  | .assigned p => .assigned (path ++ p)
  | .opened p => .opened (path ++ p)

/-- The later access does not open what the earlier one has assigned. -/
def Access.Keeps (earlier later : Access) : Prop :=
  ∀ p, earlier = .assigned p → later ≠ .opened p

instance (earlier later : Access) : Decidable (earlier.Keeps later) :=
  match earlier with
  | .opened _ => .isTrue fun _ he => by cases he
  | .assigned p =>
    decidable_of_iff (later ≠ .opened p)
      ⟨fun h _ he => by cases he; exact h, fun h => h p rfl⟩

namespace Sections

/-- The accesses of one statement. -/
def accesses (s : Sections) : Statement → List Access
  | .assignment key _ => [.assigned (s.path ++ [storedKey s.keepsCase key])]
  | .opening tag none => [.opened (s.path ++ [Text.lowerCase tag])]
  | .opening tag (some label) =>
    [.opened (s.path ++ [Text.lowerCase tag]),
      .opened (s.path ++ [Text.lowerCase tag, Text.lowerCase label])]
  | _ => []

/-- The accesses of statements one after another, up to one that fails. -/
def accessesOf : List Statement → Sections → List Access
  | [], _ => []
  | statement :: rest, s =>
    s.accesses statement ++ match s.step statement with
      | .ok s' => accessesOf rest s'
      | .error _ => []

theorem accessesOf_cons_of_step {statement : Statement} {s s' : Sections}
    (h : s.step statement = .ok s') (rest : List Statement) :
    accessesOf (statement :: rest) s = s.accesses statement ++ accessesOf rest s' := by
  rw [accessesOf, h]

theorem accessesOf_append_of_run {xs : List Statement} {s s' : Sections} (h : run xs s = .ok s')
    (ys : List Statement) : accessesOf (xs ++ ys) s = accessesOf xs s ++ accessesOf ys s' := by
  induction xs generalizing s with
  | nil =>
    cases h
    rfl
  | cons statement xs ih =>
    rw [run_cons] at h
    cases hs : s.step statement with
    | error fault => rw [hs] at h; cases h
    | ok s₁ =>
      rw [hs] at h
      rw [List.cons_append, accessesOf_cons_of_step hs, accessesOf_cons_of_step hs, ih h,
        List.append_assoc]

end Sections

/-- A text that opens no path as a section that it has assigned a scalar
before. -/
def Source.ReopensNothing (t : Text) : Prop :=
  (Sections.accessesOf (Statement.ofText t) {}).Pairwise Access.Keeps

instance (t : Text) : Decidable (Source.ReopensNothing t) :=
  inferInstanceAs (Decidable (List.Pairwise _ _))

namespace Body

/-- The accesses of a body, below the section it stands in. -/
def accesses : Body → Bool → List Access
  | .nil, _ => []
  | .plain (.assignment key _) rest, keeps =>
    .assigned [storedKey keeps key] :: rest.accesses keeps
  | .plain _ rest, keeps => rest.accesses keeps
  | .single tag _ inner rest, keeps =>
    let key := Text.lowerCase tag
    let inside := keepsOpened keeps key
    .opened [key] :: ((inner.accesses inside).map (.under [key]) ++
      rest.accesses (keepsClosed (inner.keepsAfter inside) key))
  | .labelled tag label _ _ inner outer rest, keeps =>
    let key := Text.lowerCase tag
    let inside := keepsOpened keeps key
    let between := keepsClosed (inner.keepsAfter inside) (Text.lowerCase label)
    .opened [key] :: ((.opened [Text.lowerCase label] ::
        ((inner.accesses inside).map (.under [Text.lowerCase label]) ++
          outer.accesses between)).map (.under [key]) ++
      rest.accesses (keepsClosed (outer.keepsAfter between) key))
  | .pair tag label _ inner rest, keeps =>
    let key := Text.lowerCase tag
    let inside := keepsOpened keeps key
    .opened [key] :: ((.opened [Text.lowerCase label] ::
        (inner.accesses inside).map (.under [Text.lowerCase label])).map (.under [key]) ++
      rest.accesses (keepsClosed (inner.keepsAfter inside) key))

end Body

theorem Access.under_comp_under (p q : List Text) : under p ∘ under q = under (p ++ q) := by
  funext a
  cases a <;> simp [under]

theorem Access.map_under_nil (as : List Access) : as.map (under []) = as := by
  have hid : under [] = id := by
    funext a
    cases a <;> rfl
  rw [hid, List.map_id]

theorem Sections.path_eq (s : Sections) : s.path = Frame.path s.frames := rfl

/-- The reader accesses what the body does, below the open sections. -/
theorem accessesOf_statements {b : Body} (frames : List Frame)
    (h : b.WellNested (Frame.enclosing frames)) (f : Document → Document) (root : Document)
    (keeps : Bool) :
    Sections.accessesOf b.statements (Sections.changed f root frames keeps) =
      (b.accesses keeps).map (.under (Frame.path frames)) := by
  induction b generalizing frames f root keeps with
  | nil => rfl
  | plain statement rest ih =>
    obtain ⟨hs, hrest⟩ := h
    rw [Body.statements,
      Sections.accessesOf_cons_of_step (Sections.step_plain f root frames keeps hs),
      ih frames hrest]
    cases statement with
    | assignment key value => rfl
    | blank => rfl
    | other line => rfl
    | _ => cases hs
  | single tag close inner rest ihi ih =>
    obtain ⟨hne, hclose, hinner, hrest⟩ := h
    have hopen := Sections.step_opening (Sections.changed f root frames keeps).root keeps hne
    have hrun := run_statements (⟨Text.lowerCase tag, false⟩ :: frames) hinner
    have hacc := ihi (⟨Text.lowerCase tag, false⟩ :: frames) hinner
    rw [Body.statements]
    refine (Sections.accessesOf_cons_of_step hopen _).trans ?_
    rw [Sections.accessesOf_append_of_run (hrun _ _ _), hacc,
      Sections.accessesOf_cons_of_step (Sections.step_closing _ _ _ _ hclose),
      Sections.changed_changed, ih frames hrest, Body.accesses, List.map_cons, List.map_append,
      List.map_map, Access.under_comp_under, Frame.path_cons]
    rfl
  | labelled tag label closeLabel close inner outer rest ihi iho ih =>
    obtain ⟨hne, hcloseLabel, hclose, hinner, houter, hrest⟩ := h
    have hopen :=
      Sections.step_opening_label (Sections.changed f root frames keeps).root keeps hne label
    have hrun := run_statements
      (⟨Text.lowerCase label, true⟩ :: ⟨Text.lowerCase tag, false⟩ :: frames) hinner
    have hrunOuter := run_statements (⟨Text.lowerCase tag, false⟩ :: frames) houter
    have hacc := ihi (⟨Text.lowerCase label, true⟩ :: ⟨Text.lowerCase tag, false⟩ :: frames) hinner
    have haccOuter := iho (⟨Text.lowerCase tag, false⟩ :: frames) houter
    rw [Body.statements]
    refine (Sections.accessesOf_cons_of_step hopen _).trans ?_
    rw [Sections.accessesOf_append_of_run (hrun _ _ _), hacc,
      Sections.accessesOf_cons_of_step (Sections.step_closing _ _ _ _ hcloseLabel),
      Sections.accessesOf_append_of_run (hrunOuter _ _ _), haccOuter,
      Sections.accessesOf_cons_of_step (Sections.step_closing _ _ _ _ hclose),
      Sections.changed_changed, ih frames hrest, Body.accesses]
    simp only [Sections.accesses, Sections.path_eq, Frame.path_cons, List.map_cons,
      List.map_append, List.map_map, Access.under_comp_under, Access.under, List.append_assoc,
      List.cons_append, List.nil_append]
  | pair tag label close inner rest ihi ih =>
    obtain ⟨hne, hlabel, hclose, hinner, hrest⟩ := h
    have hopen :=
      Sections.step_opening_label (Sections.changed f root frames keeps).root keeps hne label
    have hrun := run_statements
      (⟨Text.lowerCase label, true⟩ :: ⟨Text.lowerCase tag, false⟩ :: frames) hinner
    have hacc := ihi (⟨Text.lowerCase label, true⟩ :: ⟨Text.lowerCase tag, false⟩ :: frames) hinner
    rw [Body.statements]
    refine (Sections.accessesOf_cons_of_step hopen _).trans ?_
    rw [Sections.accessesOf_append_of_run (hrun _ _ _), hacc,
      Sections.accessesOf_cons_of_step (Sections.step_closing_both _ _ _ _ rfl hlabel hclose),
      Sections.changed_changed, ih frames hrest, Body.accesses]
    simp only [Sections.accesses, Sections.path_eq, Frame.path_cons, List.map_cons,
      List.map_append, List.map_map, Access.under_comp_under, Access.under, List.append_assoc,
      List.cons_append, List.nil_append]

/-! ### Scalars of a document -/

namespace Document

/-- There is a scalar at a path. -/
def HasScalar (d : Document) (p : List Text) : Prop := ∃ t, d.valueAt? p = some (.scalar t)

variable {d : Document} {k : Text} {p : List Text}

theorem not_hasScalar_empty (p : List Text) : ¬ empty.HasScalar p := by
  rintro ⟨t, ht⟩
  rw [valueAt?_empty] at ht
  cases ht

theorem hasScalar_singleton : d.HasScalar [k] ↔ ∃ t, d.get? k = some (.scalar t) := Iff.rfl

/-- A scalar inside a section is one of that section. -/
theorem hasScalar_cons (hp : p ≠ []) :
    d.HasScalar (k :: p) ↔ (d.sectionOrEmpty k).HasScalar p := by
  rw [HasScalar, HasScalar, valueAt?_cons hp]

theorem hasScalar_insert_of_ne {k' : Text} {v : Value} (hne : k ≠ k') :
    (d.insert k v).HasScalar (k' :: p) ↔ d.HasScalar (k' :: p) := by
  rw [HasScalar, HasScalar, valueAt?_insert_of_ne hne]

/-- A change inside a section gives it no scalars but those that the change
makes. -/
theorem hasScalar_of_modifyAt {f : Document → Document}
    (h : (modifyAt f [k] d).HasScalar p) :
    d.HasScalar p ∨ ∃ q, p = k :: q ∧ (f (d.sectionOrEmpty k)).HasScalar q := by
  cases p with
  | nil =>
    obtain ⟨t, ht⟩ := h
    cases ht
  | cons k' q =>
    by_cases hk : k = k'
    · subst hk
      cases q with
      | nil =>
        obtain ⟨t, ht⟩ := hasScalar_singleton.1 h
        simp at ht
      | cons k'' ks =>
        rw [hasScalar_cons (List.cons_ne_nil _ _), modifyAt_cons, modifyAt_nil,
          sectionOrEmpty_insert] at h
        exact Or.inr ⟨_, rfl, h⟩
    · rw [modifyAt_cons, modifyAt_nil, hasScalar_insert_of_ne hk] at h
      exact Or.inl h

theorem hasScalar_of_insert {t : Text} (h : (d.insert k (.scalar t)).HasScalar p) :
    d.HasScalar p ∨ p = [k] := by
  cases p with
  | nil =>
    obtain ⟨t', ht⟩ := h
    cases ht
  | cons k' q =>
    by_cases hk : k = k'
    · subst hk
      cases q with
      | nil => exact Or.inr rfl
      | cons k'' ks =>
        have hempty : (d.insert k (.scalar t)).sectionOrEmpty k = empty :=
          sectionOrEmpty_of_scalar (t := t) (by simp)
        rw [hasScalar_cons (List.cons_ne_nil _ _), hempty] at h
        exact absurd h (not_hasScalar_empty _)
    · exact Or.inl ((hasScalar_insert_of_ne hk).1 h)

end Document

/-! ### Changes and what they access -/

/-- No access opens a scalar of the document, or one that is assigned before. -/
structure Access.Clear (d : Document) (as : List Access) : Prop where
  held : ∀ p, d.HasScalar p → .opened p ∉ as
  assigned : as.Pairwise Keeps

/-- A change to a document that makes accesses: it gives no scalars but those
that it assigns, and makes the same change to a merged document, where it has
not to give a scalar up. -/
structure Access.Makes (f : Document → Document) (as : List Access) : Prop where
  scalars {d : Document} {p : List Text} :
    (f d).HasScalar p → d.HasScalar p ∨ .assigned p ∈ as
  uniqueKeys {d : Document} : d.UniqueKeys → (f d).UniqueKeys
  update {a : Document} (d : Document) :
    a.UniqueKeys → Clear a as → f (d.update a) = d.update (f a)

namespace Access

variable {d d' : Document} {as bs : List Access} {f g : Document → Document}

theorem Clear.left (h : Clear d (as ++ bs)) : Clear d as where
  held := fun p hp hm => h.held p hp (List.mem_append_left _ hm)
  assigned := (List.pairwise_append.1 h.assigned).1

theorem Clear.right (h : Clear d (as ++ bs))
    (hd : ∀ p, d'.HasScalar p → d.HasScalar p ∨ .assigned p ∈ as) : Clear d' bs where
  held := by
    intro p hp hm
    rcases hd p hp with hp | hp
    · exact h.held p hp (List.mem_append_right _ hm)
    · exact (List.pairwise_append.1 h.assigned).2.2 _ hp _ hm p rfl rfl
  assigned := (List.pairwise_append.1 h.assigned).2.1

theorem Clear.inside {k : Text} (h : Clear d (as.map (under [k]))) :
    Clear (d.sectionOrEmpty k) as where
  held := by
    intro p hp hm
    have hne : p ≠ [] := by
      rintro rfl
      obtain ⟨t, ht⟩ := hp
      cases ht
    exact h.held (k :: p) ((Document.hasScalar_cons hne).2 hp) (List.mem_map.2 ⟨_, hm, rfl⟩)
  assigned := by
    refine (List.pairwise_map.1 h.assigned).imp ?_
    rintro x y hxy p rfl rfl
    exact hxy (k :: p) rfl rfl

theorem makes_id : Makes (fun d => d) [] where
  scalars := Or.inl
  uniqueKeys := fun h => h
  update := fun _ _ _ => rfl

theorem makes_insert (k t : Text) : Makes (·.insert k (.scalar t)) [.assigned [k]] where
  scalars := by
    intro d p hp
    rcases Document.hasScalar_of_insert hp with hp | rfl
    · exact Or.inl hp
    · exact Or.inr (List.mem_cons_self ..)
  uniqueKeys := fun h => building_uniqueKeys.insert_scalar h trivial
  update := fun d hu _ => (Document.update_insert hu d k (.scalar t)).symm

/-- One change after another. -/
theorem Makes.comp (hf : Makes f as) (hg : Makes g bs) :
    Makes (fun d => g (f d)) (as ++ bs) where
  scalars := by
    intro d p hp
    rcases hg.scalars hp with hp | hp
    · rcases hf.scalars hp with hp | hp
      · exact Or.inl hp
      · exact Or.inr (List.mem_append_left _ hp)
    · exact Or.inr (List.mem_append_right _ hp)
  uniqueKeys := fun h => hg.uniqueKeys (hf.uniqueKeys h)
  update := by
    intro a d hu hc
    rw [hf.update d hu hc.left]
    exact hg.update d (hf.uniqueKeys hu) (hc.right fun p hp => hf.scalars hp)

/-- A change inside a section that is opened. -/
theorem Makes.section (hf : Makes f as) (k : Text) :
    Makes (Document.modifyAt f [k]) (.opened [k] :: as.map (under [k])) where
  scalars := by
    intro d p hp
    rcases Document.hasScalar_of_modifyAt hp with hp | ⟨q, rfl, hq⟩
    · exact Or.inl hp
    · rcases hf.scalars hq with hq | hq
      · have hne : q ≠ [] := by
          rintro rfl
          obtain ⟨t, ht⟩ := hq
          cases ht
        exact Or.inl ((Document.hasScalar_cons hne).2 hq)
      · exact Or.inr (List.mem_cons_of_mem _ (List.mem_map.2 ⟨_, hq, rfl⟩))
  uniqueKeys := fun h => h.modifyAt (fun _ => hf.uniqueKeys) [k]
  update := by
    intro a d hu hc
    have hscalar : ∀ t, a.get? k ≠ some (.scalar t) := fun t ht =>
      hc.held [k] ⟨t, ht⟩ (List.mem_cons_self ..)
    have hc : Clear a ([.opened [k]] ++ as.map (under [k])) := hc
    have hinside : Clear a (as.map (under [k])) := hc.right fun p hp => Or.inl hp
    refine Document.modifyAt_update hu d hscalar (hf.update _ ?_ hinside.inside)
    exact hu.sectionOrEmpty k

end Access

/-- **A body makes its accesses**, so where it opens no scalar it commutes with
merging. -/
theorem Body.makes (b : Body) (keeps : Bool) :
    Access.Makes (b.apply keeps) (b.accesses keeps) := by
  induction b generalizing keeps with
  | nil => exact Access.makes_id
  | plain statement rest ih =>
    cases statement with
    | assignment key value =>
      exact (Access.makes_insert (storedKey keeps key) value).comp (ih keeps)
    | _ => exact ih keeps
  | single tag close inner rest ihi ih =>
    exact ((ihi _).section (Text.lowerCase tag)).comp (ih _)
  | labelled tag label closeLabel close inner outer rest ihi iho ih =>
    have hlabel := (ihi (keepsOpened keeps (Text.lowerCase tag))).section (Text.lowerCase label)
    exact ((hlabel.comp (iho _)).section (Text.lowerCase tag)).comp (ih _)
  | pair tag label close inner rest ihi ih =>
    have hlabel := (ihi (keepsOpened keeps (Text.lowerCase tag))).section (Text.lowerCase label)
    exact (hlabel.section (Text.lowerCase tag)).comp (ih _)

/-- **A text that reopens nothing** makes the same of any document as merging
what it makes of the empty one. -/
theorem Body.apply_eq_update {b : Body} (hb : b.WellNested none) {t : Text}
    (hst : b.statements = Statement.ofText t) (h : Source.ReopensNothing t) (d : Document) :
    b.apply false d = d.update (b.apply false .empty) := by
  have haccesses : Sections.accessesOf (Statement.ofText t) {} = b.accesses false := by
    rw [← hst]
    exact (accessesOf_statements [] hb id .empty false).trans (Access.map_under_nil _)
  rw [Source.ReopensNothing, haccesses] at h
  exact (b.makes false).update (a := .empty) d trivial
    ⟨fun p hp => absurd hp (Document.not_hasScalar_empty p), h⟩

end Wcl
