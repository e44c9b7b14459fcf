import Wcl.Proofs.Markup.Access
import Wcl.Proofs.Markup.Reachable
import Wcl.Proofs.Markup.Spoken

/-!
# Values that later lines leave

An assignment gives a path of keys its value.  A later line overwrites it if it
assigns at that path, on the way to it or below it, if it opens the path as a
section, or if it includes something that says anything there
(`Reader.Overwrites`).  Every other line leaves what stands at the path
(`Reader.valueAt?_step`), so behind lines that overwrite nothing it still stands
(`Reader.Spares.valueAt?_eq`).

So the document that is read holds what a line assigns, if no later one overwrites
it: `Reader.Settling.valueAt?_eq`.
-/

namespace Wcl

/-! ### Merging beside a path -/

/-- Entries say something at a path: there is one at it, or a scalar on the way. -/
def Entries.Covers : Entries → List Text → Prop
  | .nil, _ => False
  | .scalar k _ rest, p => [k] <+: p ∨ rest.Covers p
  | .nested k _ inner rest, p =>
    p = [k] ∨ (∃ q, p = k :: q ∧ inner.Covers q) ∨ rest.Covers p

namespace Document

variable {p q : List Text} {d : Document} {k : Text} {v : Value}

theorem valueAt?_insert_of_not_prefix (h : ¬ [k] <+: p) (d : Document) (v : Value) :
    valueAt? p (d.insert k v) = valueAt? p d := by
  cases p with
  | nil => rfl
  | cons j js =>
    have hne : k ≠ j := by
      rintro rfl
      exact h (List.prefix_append [k] js)
    exact valueAt?_insert_of_ne hne js d v

theorem valueAt?_insert_nested (hp : p ≠ []) (s : Document) :
    valueAt? (k :: p) (d.insert k (.nested s)) = valueAt? p s := by
  rw [valueAt?_cons hp, sectionOrEmpty_insert]

/-- Merging leaves a path that the entries say nothing about. -/
theorem valueAt?_mergeInto {e : Entries} (h : ¬ e.Covers p) :
    valueAt? p (e.mergeInto d) = valueAt? p d := by
  induction e generalizing d p with
  | nil => rfl
  | scalar k t rest ih =>
    obtain ⟨hk, hrest⟩ := not_or.1 h
    rw [Entries.mergeInto, ih hrest, valueAt?_insert_of_not_prefix hk]
  | nested k o inner rest ihi ih =>
    obtain ⟨hk, h⟩ := not_or.1 h
    obtain ⟨hinner, hrest⟩ := not_or.1 h
    rw [Entries.mergeInto, ih hrest]
    by_cases hprefix : [k] <+: p
    · obtain ⟨q, rfl⟩ := hprefix
      have hq : q ≠ [] := by
        rintro rfl
        exact hk rfl
      have hbelow : ¬ inner.Covers q := fun hc => hinner ⟨q, rfl, hc⟩
      show valueAt? (k :: q) _ = valueAt? (k :: q) d
      rw [valueAt?_insert_nested hq, ihi hbelow, valueAt?_cons hq]
    · exact valueAt?_insert_of_not_prefix hprefix d _

/-- A change inside a section leaves a path that does not stop short of the section,
if it leaves what is behind it. -/
theorem valueAt?_modifyAt {f : Document → Document} (hp : ¬ p <+: q)
    (hf : ∀ r, p = q ++ r → ∀ s, valueAt? r (f s) = valueAt? r s) :
    valueAt? p (modifyAt f q d) = valueAt? p d := by
  induction q generalizing d p with
  | nil => exact hf p rfl d
  | cons k ks ih =>
    rw [modifyAt_cons]
    by_cases hprefix : [k] <+: p
    · obtain ⟨r, rfl⟩ := hprefix
      have hr : r ≠ [] := by
        rintro rfl
        exact hp (List.prefix_append [k] ks)
      have hbelow : ¬ r <+: ks := fun h => hp ((List.prefix_cons_inj k).2 h)
      have hfbelow : ∀ r', r = ks ++ r' → ∀ s, valueAt? r' (f s) = valueAt? r' s :=
        fun r' he => hf r' (congrArg (k :: ·) he)
      show valueAt? (k :: r) _ = valueAt? (k :: r) d
      rw [valueAt?_insert_nested hr, ih hbelow hfbelow, valueAt?_cons hr]
    · exact valueAt?_insert_of_not_prefix hprefix d _

/-- What is inserted into a section stands there. -/
theorem valueAt?_modifyAt_insert (q : List Text) (d : Document) :
    valueAt? (q ++ [k]) (modifyAt (·.insert k v) q d) = some v := by
  induction q generalizing d with
  | nil => exact (get?_insert d k k v).trans (if_pos rfl)
  | cons j js ih =>
    rw [List.cons_append, modifyAt_cons, valueAt?_insert_nested (by simp)]
    exact ih _

end Document

/-! ### Lines that overwrite -/

/-- An access overwrites what stands at a path. -/
def Access.Overwrites (p : List Text) : Access → Prop
  | .assigned q => q <+: p ∨ p <+: q
  | .opened q => p <+: q

instance (p : List Text) : (a : Access) → Decidable (a.Overwrites p)
  | .assigned _ => inferInstanceAs (Decidable (_ ∨ _))
  | .opened q => inferInstanceAs (Decidable (p <+: q))

namespace Sections

variable {s s' : Sections} {p : List Text} {tag : Text} {label : Option Text} {frame : Frame}

theorem path_push (s : Sections) (frame : Frame) : (s.push frame).path = s.path ++ [frame.key] := by
  simp [push, modify, path]

/-- Opening a section leaves what does not stand at it or on the way to it. -/
theorem valueAt?_push (h : ¬ p <+: s.path ++ [frame.key]) :
    Document.valueAt? p (s.push frame).root = Document.valueAt? p s.root := by
  have hpath : ({ s with frames := frame :: s.frames } : Sections).path = s.path ++ [frame.key] :=
    s.path_push frame
  refine Document.valueAt?_modifyAt (hpath ▸ h) fun r _ d => rfl

theorem valueAt?_opened (h : s.opened tag label = .ok s')
    (hclear : ∀ a ∈ s.accesses (.opening tag label), ¬ a.Overwrites p) :
    Document.valueAt? p s'.root = Document.valueAt? p s.root := by
  rw [opened] at h
  split at h
  · cases h
  · cases label with
    | none =>
      cases h
      exact valueAt?_push (hclear _ (List.mem_singleton_self _))
    | some l =>
      obtain ⟨htag, hlabel⟩ := List.forall_mem_cons.1 hclear
      have hboth := hlabel _ (List.mem_singleton_self _)
      cases h
      refine (valueAt?_push ?_).trans (valueAt?_push htag)
      rw [path_push, List.append_assoc]
      exact hboth

/-- An assignment leaves what does not stand at its path, on the way to it or below. -/
theorem valueAt?_assign {key value : Text}
    (h : ¬ (Access.assigned (s.path ++ [storedKey s.keepsCase key])).Overwrites p) :
    Document.valueAt? p (s.assign key value).root = Document.valueAt? p s.root := by
  obtain ⟨hbelow, habove⟩ := not_or.1 h
  refine Document.valueAt?_modifyAt (fun hp => habove (hp.trans (List.prefix_append _ _))) ?_
  rintro r rfl d
  refine Document.valueAt?_insert_of_not_prefix (fun hr => hbelow ?_) d _
  exact (List.prefix_append_right_inj s.path).2 hr

end Sections

namespace Reader

variable {r : Reader} {left : Nat} {s s' : Sections} {p : List Text} {st : Statement}
  {sts : List Statement}

/-- A statement overwrites what stands at a path. -/
def Overwrites (r : Reader) (left : Nat) (p : List Text) (s : Sections) : Statement → Prop
  | .includeFile raw =>
    ∃ d, (r.loadWithin [] left 0 s raw).result = .ok d ∧ d.entries.Covers p
  | .includeCall name keys =>
    ∃ d, (r.callInclude s.root name keys).result = .ok d ∧ d.entries.Covers p
  | st => ∃ a ∈ s.accesses st, a.Overwrites p

/-- No statement, one after another, overwrites what stands at a path. -/
inductive Spares (r : Reader) (left : Nat) (p : List Text) : List Statement → Sections → Prop
  | nil {s : Sections} : Spares r left p [] s
  | cons {st : Statement} {sts : List Statement} {s s' : Sections} :
    (r.step (r.loadWithin [] left) [] 0 st s).result = .ok s' → ¬ r.Overwrites left p s st →
      Spares r left p sts s' → Spares r left p (st :: sts) s

/-- **One line** leaves what it does not overwrite. -/
theorem valueAt?_step (h : (r.step (r.loadWithin [] left) [] 0 st s).result = .ok s')
    (hst : ¬ r.Overwrites left p s st) :
    Document.valueAt? p s'.root = Document.valueAt? p s.root := by
  cases st with
  | includeFile raw =>
    obtain ⟨d, hload, h⟩ := Traced.bind_eq_ok.1 h
    cases h
    exact Document.valueAt?_mergeInto fun hc => hst ⟨d, hload, hc⟩
  | includeCall name keys =>
    obtain ⟨d, hcall, h⟩ := Traced.bind_eq_ok.1 h
    cases h
    exact Document.valueAt?_mergeInto fun hc => hst ⟨d, hcall, hc⟩
  | badDirective line => cases h
  | closing tag => rw [Sections.root_closed (mapError_eq_ok.1 h)]
  | opening tag label =>
    exact Sections.valueAt?_opened (mapError_eq_ok.1 h) fun a ha ho => hst ⟨a, ha, ho⟩
  | assignment key value =>
    cases h
    exact Sections.valueAt?_assign fun ho => hst ⟨_, List.mem_singleton_self _, ho⟩
  | blank =>
    cases h
    rfl
  | other line =>
    cases h
    rfl

/-- **Lines one after another** leave what none of them overwrites. -/
theorem Spares.valueAt?_eq (h : r.Spares left p sts s) (hrun : r.obeys left sts s = .ok s') :
    Document.valueAt? p s'.root = Document.valueAt? p s.root := by
  induction h with
  | nil =>
    cases hrun
    rfl
  | cons hstep hst _ ih =>
    obtain ⟨s₁, hstep', hrun⟩ := obeys_cons_eq_ok.1 hrun
    rw [hstep] at hstep'
    cases hstep'
    rw [ih hrun, valueAt?_step hstep hst]

theorem obeys_append_eq_ok {front back : List Statement} :
    r.obeys left (front ++ back) s = .ok s' ↔
      ∃ s₁, r.obeys left front s = .ok s₁ ∧ r.obeys left back s₁ = .ok s' := by
  induction front generalizing s with
  | nil => simp [obeys]
  | cons st front ih =>
    simp only [List.cons_append, obeys_cons_eq_ok, ih]
    constructor
    · rintro ⟨s₁, hstep, s₂, hfront, hback⟩
      exact ⟨s₂, ⟨s₁, hstep, hfront⟩, hback⟩
    · rintro ⟨s₂, ⟨s₁, hstep, hfront⟩, hback⟩
      exact ⟨s₁, hstep, s₂, hfront, hback⟩

/-! ### Assignments that stand -/

/-- A text has an assignment, with these lines in front and behind and these sections
in front of it, and nothing behind it overwrites the value. -/
structure Settling (r : Reader) (t : Text) (front : List Statement) (here : Sections)
    (key value : Text) (back : List Statement) : Prop where
  text : Statement.spoken t = front ++ .assignment key value :: back
  run : r.obeys maxIncludeDepth front {} = .ok here
  spared : r.Spares maxIncludeDepth (here.path ++ [storedKey here.keepsCase key]) back
    (here.assign key value)

/-- **What is assigned and not overwritten stands in the document.** -/
theorem Settling.valueAt?_eq {t : Text} {front back : List Statement} {here : Sections}
    {key value : Text} (h : r.Settling t front here key value back) {d : Document}
    (hd : (r.parseText t).result = .ok d) :
    Document.valueAt? (here.path ++ [storedKey here.keepsCase key]) d = some (.scalar value) := by
  obtain ⟨last, hlast, hfinished⟩ := parseText_eq_ok_iff.1 hd
  obtain ⟨-, rfl⟩ := Sections.finished_eq_ok_iff.1 hfinished
  rw [h.text, obeys_append_eq_ok] at hlast
  obtain ⟨s₁, hfront, hrest⟩ := hlast
  rw [h.run] at hfront
  cases hfront
  obtain ⟨s₂, hstep, hback⟩ := obeys_cons_eq_ok.1 hrest
  cases hstep
  rw [h.spared.valueAt?_eq hback]
  exact Document.valueAt?_modifyAt_insert here.path here.root

end Reader

end Wcl
