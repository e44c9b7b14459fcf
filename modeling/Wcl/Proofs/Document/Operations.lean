import Wcl.Proofs.Document.Paths

/-!
# Operations on documents

A document changes by operations, each on the document or on a section inside it
(`Operation.applyAt`).  An operation keeps the keys of every section unique if
those of its values are (`Operation.uniqueKeys_applyAt`).

An operation exchanges the values at some paths (`Operation.Displaces`).  Any
section that is not at or below such a path is still there afterwards; its keys
are in the order that they had, and new ones come behind them
(`Operation.keeps_applyAt`).  Only removing takes a key away, one from the
section it works on and none from any other (`Operation.takenOut_applyAt`).

What a new value under one key does to the sections at all paths is
`Keeps.insert`; longer paths and the operations follow from it.
-/

namespace Wcl.Document

/-! ### Operations -/

/-- A change to a document. -/
inductive Operation
  /-- A value under a key. -/
  | insert (key : Text) (value : Value)
  /-- A value at a dotted key; nothing, where a section on the way is missing. -/
  | set (key : Text) (value : Value)
  /-- Another value under a key that is there. -/
  | overwrite (key : Text) (value : Value)
  /-- No entry under a key any more. -/
  | remove (key : Text)
  /-- A section under a key, an empty one if there is none. -/
  | enter (key : Text)
  /-- Another document merged in. -/
  | update (other : Document)
  /-- Another search order. -/
  | reorder (order : List Text)

namespace Operation

/-- What an operation makes of a document. -/
def apply : Operation → Document → Document
  | .insert k v, d => d.insert k v
  | .set k v, d => (d.set k v).toOption.getD d
  | .overwrite k v, d => if d.hasKey k then d.insert k v else d
  | .remove k, d => d.remove k
  | .enter k, d => modifyAt id [k] d
  | .update other, d => d.update other
  | .reorder order, d => d.withSearchOrder order

/-- An operation on the section at a path; nothing, if it is not there. -/
def applyAt (op : Operation) (path : List Text) (d : Document) : Document :=
  if (sectionAt? path d).isSome then modifyAt op.apply path d else d

/-- The documents among the values that an operation puts in. -/
def given : Operation → List Document
  | .insert _ v => v.section?.toList
  | .set _ v => v.section?.toList
  | .overwrite _ v => v.section?.toList
  | .update other => [other]
  | _ => []

/-- An operation exchanges the value at this path as a whole, or takes it away. -/
def Displaces : Operation → List Text → Prop
  | .insert k _, p => p = [k]
  | .set k _, p => p = segments k
  | .overwrite k _, p => p = [k]
  | .remove k, p => p = [k]
  | .enter _, _ => False
  | .update other, p => ∃ t, valueAt? p other = some (.scalar t)
  | .reorder _, _ => False

end Operation

/-! ### Unique keys -/

variable {d d' s : Document} {k : Text} {v : Value}

theorem UniqueKeys.insert_value (hd : d.UniqueKeys)
    (hv : ∀ s ∈ v.section?.toList, s.UniqueKeys) (k : Text) : (d.insert k v).UniqueKeys :=
  Entries.UniqueKeys.insert hd (fun s hs => hv s (Option.mem_toList.2 hs)) k

/-- On a longer path the section under the first key is there and takes the value. -/
theorem setAt_cons_eq_ok {ks : List Text} (hks : ks ≠ []) :
    setAt v (k :: ks) d = .ok d' ↔
      ∃ s s', d.section? k = some s ∧ setAt v ks s = .ok s' ∧ d' = d.insert k (.nested s') := by
  obtain ⟨k', ks, rfl⟩ := List.exists_cons_of_ne_nil hks
  rw [setAt]
  · cases hs : d.section? k with
    | none => simp
    | some s =>
      cases hset : setAt v (k' :: ks) s with
      | error e => simp [hset]
      | ok s' => simp [hset, eq_comm]
  · exact hks

theorem UniqueKeys.setAt (hv : ∀ s ∈ v.section?.toList, s.UniqueKeys) {p : List Text}
    (hd : d.UniqueKeys) (h : setAt v p d = .ok d') : d'.UniqueKeys := by
  induction p generalizing d d' with
  | nil =>
    cases h
    exact hd
  | cons k ks ih =>
    by_cases hks : ks = []
    · subst hks
      cases h
      exact hd.insert_value hv k
    · obtain ⟨s, s', hs, hset, rfl⟩ := (setAt_cons_eq_ok hks).1 h
      exact building_uniqueKeys.insert_nested hd (ih (hd.section? hs) hset) trivial

/-- **Operations keep keys unique.** -/
theorem Operation.uniqueKeys_applyAt {op : Operation} (hop : ∀ s ∈ op.given, s.UniqueKeys)
    (path : List Text) (hd : d.UniqueKeys) : (op.applyAt path d).UniqueKeys := by
  have happly : ∀ s : Document, s.UniqueKeys → (op.apply s).UniqueKeys := by
    intro s hs
    cases op with
    | insert k v => exact hs.insert_value hop k
    | set k v =>
      cases hset : s.set k v with
      | error e => rwa [apply, hset]
      | ok s' =>
        rw [apply, hset]
        exact hs.setAt hop hset
    | overwrite k v =>
      rw [apply]
      split
      · exact hs.insert_value hop k
      · exact hs
    | remove k => exact Entries.UniqueKeys.remove hs k
    | enter k => exact hs.modifyAt (fun _ h => h) [k]
    | update other => exact hs.update other
    | reorder order => exact hs
  rw [applyAt]
  split
  · exact hd.modifyAt happly path
  · exact hd

/-! ### The order of the keys -/

/-- The section at a path is still there, and its keys stand in a relation to
those that it had. -/
def Keeps (R : List Text → List Text → Prop) (d d' : Document) (p : List Text) : Prop :=
  ∀ s, sectionAt? p d = some s → ∃ s', sectionAt? p d' = some s' ∧ R s.keys s'.keys

variable {R : List Text → List Text → Prop} {p q path : List Text}

theorem Keeps.refl (hR : ∀ ks, R ks ks) (d : Document) (p : List Text) : Keeps R d d p :=
  fun s hs => ⟨s, hs, hR _⟩

/-- One key gets a value: a section that was under it has to stay, and the other
keys have theirs. -/
theorem Keeps.insert (hR : ∀ ks, R ks ks) (hkeys : R d.keys (d.insert k v).keys)
    (hin : ∀ ks s, q = k :: ks → d.section? k = some s → ∃ s', v = .nested s' ∧ Keeps R s s' ks) :
    Keeps R d (d.insert k v) q := by
  intro s hs
  cases q with
  | nil =>
    cases hs
    exact ⟨_, rfl, hkeys⟩
  | cons k' ks =>
    by_cases hk : k = k'
    · subst hk
      obtain ⟨s₁, hs₁, hs⟩ := Option.bind_eq_some_iff.1 hs
      obtain ⟨s', rfl, hkeep⟩ := hin ks s₁ rfl hs₁
      obtain ⟨r, hr, hRr⟩ := hkeep s hs
      exact ⟨r, by rw [sectionAt?, section?_insert_nested, Option.bind_some, hr], hRr⟩
    · rw [sectionAt?, ← section?_insert_of_ne hk d v] at hs
      exact ⟨s, hs, hR _⟩

theorem keys_insert_of_section? (hs : d.section? k = some s) (v : Value) :
    (d.insert k v).keys = d.keys := by
  rw [keys_insert, if_pos (mem_keys_of_section? hs)]

/-- A change inside a section, seen from the section around it. -/
theorem Keeps.insert_nested (hR : ∀ ks, R ks ks) {s' : Document} (hs : d.section? k = some s)
    (h : ∀ ks, q = k :: ks → Keeps R s s' ks) : Keeps R d (d.insert k (.nested s')) q := by
  have hkeys : R d.keys (d.insert k (.nested s')).keys := by
    rw [keys_insert_of_section? hs]
    exact hR _
  refine Keeps.insert hR hkeys fun ks s₁ hq hs₁ => ?_
  cases hs.symm.trans hs₁
  exact ⟨s', rfl, h ks hq⟩

/-- A change to the section at a path. -/
theorem Keeps.modifyAt (hR : ∀ ks, R ks ks) {f : Document → Document}
    (hs : sectionAt? path d = some s) (h : ∀ p, q = path ++ p → Keeps R s (f s) p) :
    Keeps R d (modifyAt f path d) q := by
  induction path generalizing d q with
  | nil =>
    cases hs
    exact h q rfl
  | cons k ks ih =>
    obtain ⟨s₁, hs₁, hs⟩ := Option.bind_eq_some_iff.1 hs
    rw [modifyAt_cons, sectionOrEmpty_of_section? hs₁]
    refine Keeps.insert_nested hR hs₁ fun ks' hq => ih hs fun p hp => h p ?_
    rw [hq, hp, List.cons_append]

theorem keys_prefix_insert (d : Document) (k : Text) (v : Value) :
    d.keys <+: (d.insert k v).keys := by
  rw [keys_insert]
  split
  · exact List.prefix_refl _
  · exact List.prefix_append _ _

theorem keeps_insert (hq : ¬ [k] <+: q) (d : Document) (v : Value) :
    Keeps (· <+: ·) d (d.insert k v) q :=
  Keeps.insert List.prefix_refl (keys_prefix_insert d k v) fun ks _ he _ =>
    absurd (he ▸ List.prefix_append [k] ks) hq

theorem keeps_setAt (hset : setAt v p d = .ok d') (hq : ¬ p <+: q) :
    Keeps (· <+: ·) d d' q := by
  induction p generalizing d d' q with
  | nil => exact absurd List.nil_prefix hq
  | cons k ks ih =>
    by_cases hks : ks = []
    · subst hks
      cases hset
      exact keeps_insert hq d v
    · obtain ⟨s, s', hs, hset', rfl⟩ := (setAt_cons_eq_ok hks).1 hset
      refine Keeps.insert_nested List.prefix_refl hs fun ks' he => ih hset' fun hp => hq ?_
      rw [he, List.prefix_cons_inj]
      exact hp

theorem keeps_enter (d : Document) (k : Text) (q : List Text) :
    Keeps (· <+: ·) d (modifyAt id [k] d) q := by
  refine Keeps.insert List.prefix_refl (keys_prefix_insert d k _) fun ks s _ hs => ⟨s, ?_, ?_⟩
  · rw [sectionOrEmpty_of_section? hs]
    rfl
  · exact Keeps.refl List.prefix_refl s ks

theorem keeps_update {other : Document} (hu : other.UniqueKeys)
    (hq : ∀ p t, valueAt? p other = some (.scalar t) → ¬ p <+: q) (d : Document) :
    Keeps (· <+: ·) d (d.update other) q := by
  intro s hs
  cases ho : sectionAt? q other with
  | some s' =>
    have hmerged := sectionAt?_update (a := d) hu ho
    rw [hs, Option.getD_some] at hmerged
    exact ⟨s.update s', hmerged, keys_update (hu.sectionAt? ho) s ▸ List.prefix_append _ _⟩
  | none =>
    have hne : q ≠ [] := by
      rintro rfl
      cases ho
    rw [sectionAt?_eq_bind hne] at ho
    have hnone : valueAt? q other = none := by
      cases hv : valueAt? q other with
      | none => rfl
      | some v =>
        cases v with
        | scalar t => exact absurd (List.prefix_refl q) (hq q t hv)
        | nested s' =>
          rw [hv] at ho
          cases ho
    -- `other` has nothing here, and no scalar above.
    have hsame := valueAt?_update_of_none (a := d) hu hnone fun p t hp _ ht => hq p t ht hp
    refine ⟨s, ?_, List.prefix_refl _⟩
    rw [sectionAt?_eq_bind hne, hsame, ← sectionAt?_eq_bind hne, hs]

theorem keeps_reorder (d : Document) (order : List Text) (q : List Text) :
    Keeps (· <+: ·) d (d.withSearchOrder order) q := by
  intro s hs
  cases q with
  | nil =>
    cases hs
    exact ⟨_, rfl, List.prefix_refl _⟩
  | cons k ks => exact ⟨s, hs, List.prefix_refl _⟩

/-- **Operations keep the order of the keys**, wherever a section is not put out
of its place. -/
theorem Operation.keeps_applyAt {op : Operation} (hop : ∀ s ∈ op.given, s.UniqueKeys)
    (hremove : ∀ k, op ≠ .remove k) (hq : ∀ p, op.Displaces p → ¬ path ++ p <+: q) :
    Keeps (· <+: ·) d (op.applyAt path d) q := by
  have happly : ∀ {s : Document} {q' : List Text}, (∀ p, op.Displaces p → ¬ p <+: q') →
      Keeps (· <+: ·) s (op.apply s) q' := by
    intro s q' hq'
    cases op with
    | insert k v => exact keeps_insert (hq' _ rfl) s v
    | set k v =>
      cases hset : s.set k v with
      | error e =>
        rw [apply, hset]
        exact Keeps.refl List.prefix_refl s q'
      | ok s' =>
        rw [apply, hset]
        exact keeps_setAt hset (hq' _ rfl)
    | overwrite k v =>
      rw [apply]
      split
      · exact keeps_insert (hq' _ rfl) s v
      · exact Keeps.refl List.prefix_refl s q'
    | remove k => exact absurd rfl (hremove k)
    | enter k => exact keeps_enter s k q'
    | update other =>
      exact keeps_update (hop other (List.mem_singleton_self _)) (fun p t ht => hq' p ⟨t, ht⟩) s
    | reorder order => exact keeps_reorder s order q'
  rw [applyAt]
  cases hs : sectionAt? path d with
  | none => exact Keeps.refl List.prefix_refl d q
  | some s =>
    refine Keeps.modifyAt List.prefix_refl hs fun p hp => happly fun p' hp' hpre => hq p' hp' ?_
    rw [hp]
    exact (List.prefix_append_right_inj path).2 hpre

/-! ### Taking an entry out -/

/-- The entry under a key is the one that is taken out of a section, from among
the others in their order, and every other section has its keys as before. -/
structure TakenOut (k : Text) (path : List Text) (d d' : Document) : Prop where
  /-- What is left of the section. -/
  entry : ∃ s s' v front back, sectionAt? path d = some s ∧ sectionAt? path d' = some s' ∧
    s.toList = front ++ (k, v) :: back ∧ s'.toList = front ++ back
  /-- The sections that are not under the key. -/
  others {q : List Text} : q ≠ path → ¬ path ++ [k] <+: q → Keeps (· = ·) d d' q

theorem toList_remove_of_mem (h : k ∈ d.keys) :
    ∃ v front back,
      d.toList = front ++ (k, v) :: back ∧ (d.remove k).toList = front ++ back := by
  rw [keys, Entries.keys_eq_map] at h
  obtain ⟨entry, hmem, hentry⟩ := List.mem_map.1 h
  obtain ⟨⟨k', v⟩, front, back, _, hk, hlist, herase⟩ :=
    List.exists_of_eraseP (p := fun e : Text × Value => decide (e.1 = k)) hmem (decide_eq_true hentry)
  obtain rfl : k' = k := of_decide_eq_true hk
  exact ⟨v, front, back, hlist, (d.entries.toList_remove k').trans herase⟩

theorem keeps_remove_of_ne (hne : q ≠ []) (hq : ¬ [k] <+: q) (d : Document) :
    Keeps (· = ·) d (d.remove k) q := by
  intro s hs
  obtain ⟨k', ks, rfl⟩ := List.exists_cons_of_ne_nil hne
  have hk : k ≠ k' := by
    rintro rfl
    exact hq (List.prefix_append [k] ks)
  have hsection : (d.remove k).section? k' = d.section? k' := by
    rw [section?, get?, remove, Entries.get?_remove_of_ne hk]
    rfl
  exact ⟨s, by rw [sectionAt?, hsection]; exact hs, rfl⟩

/-- **Removing takes one entry out.** -/
theorem Operation.takenOut_applyAt (hs : sectionAt? path d = some s) (hk : k ∈ s.keys) :
    TakenOut k path d ((Operation.remove k).applyAt path d) := by
  have happly : (Operation.remove k).applyAt path d = modifyAt (·.remove k) path d :=
    if_pos (by rw [hs, Option.isSome_some])
  rw [happly]
  constructor
  · obtain ⟨v, front, back, hlist, hremove⟩ := toList_remove_of_mem hk
    exact ⟨s, s.remove k, v, front, back, hs, sectionAt?_modifyAt _ hs, hlist, hremove⟩
  · intro q hne hq
    refine Keeps.modifyAt (fun _ => rfl) hs fun p hp => keeps_remove_of_ne ?_ ?_ s
    · rintro rfl
      exact hne (hp.trans (List.append_nil path))
    · intro hpre
      exact hq (hp ▸ (List.prefix_append_right_inj path).2 hpre)

/-- Without an entry to take out nothing changes. -/
theorem Operation.applyAt_remove_of_notMem
    (h : ∀ s, sectionAt? path d = some s → k ∉ s.keys) :
    (Operation.remove k).applyAt path d = d := by
  rw [applyAt]
  split
  · obtain ⟨s, hs⟩ := Option.isSome_iff_exists.1 ‹_›
    have hremove : s.remove k = s :=
      congrArg (Document.mk · s.searchOrder) (Entries.remove_of_notMem (h s hs))
    exact modifyAt_eq_self hs hremove
  · rfl

end Wcl.Document
