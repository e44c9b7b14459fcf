import Wcl.Document.Writer
import Wcl.Proofs.Document.Paths

/-!
# Siblings in order

Two documents are sibling-equivalent if they differ in the order of siblings
alone, and in no order at or below a section `cmdline`
(`Entries.SiblingEquivalent`).  One of the documents that are equivalent to a
given one has its siblings in the order of their keys (`Document.arranged`,
`siblingEquivalent_arranged`, `inOrder_arranged`); a section `cmdline` of it is
the one of the given document, with all that is in it (`sectionAt?_arranged`).
But for search orders, which are not written, there is only one such document,
so documents are equivalent if and only if they have the same one
(`siblingEquivalent_iff`).

What a section has under a key is looked up, so that the order does not matter;
the inductions are on the sections that look-ups find (`section_induction`).
-/

namespace Wcl

namespace Entries

/-! ### Section by section -/

/-- Entries have what is handed on to them from the sections among them. -/
theorem section_induction {P : Entries → Prop}
    (step : ∀ e, (∀ k s, e.get? k = some (.nested s) → P s.entries) → P e) (e : Entries) : P e := by
  have hsections : P e ∧ ∀ k s, e.get? k = some (.nested s) → P s.entries := by
    induction e with
    | nil =>
      have hnone : ∀ k s, Entries.nil.get? k = some (.nested s) → P s.entries := by
        intro k s hs
        cases hs
      exact ⟨step _ hnone, hnone⟩
    | scalar k t rest ih =>
      have hall : ∀ k' s, (Entries.scalar k t rest).get? k' = some (.nested s) → P s.entries := by
        intro k' s hs
        rw [get?] at hs
        split at hs
        · cases hs
        · exact ih.2 k' s hs
      exact ⟨step _ hall, hall⟩
    | nested k o inner rest ihi ih =>
      have hall : ∀ k' s, (Entries.nested k o inner rest).get? k' = some (.nested s) →
          P s.entries := by
        intro k' s hs
        rw [get?] at hs
        split at hs
        · cases hs
          exact ihi.1
        · exact ih.2 k' s hs
      exact ⟨step _ hall, hall⟩
  exact hsections.1

theorem uniqueKeys_cons {k : Text} {v : Value} {rest : Entries} :
    (cons k v rest).UniqueKeys ↔
      k ∉ rest.keys ∧ (∀ d ∈ v.section?, d.entries.UniqueKeys) ∧ rest.UniqueKeys := by
  cases v with
  | scalar t => simp [cons, UniqueKeys, Value.section?]
  | nested d => simp [cons, UniqueKeys, Value.section?]

theorem UniqueKeys.nodup {e : Entries} (h : e.UniqueKeys) : e.keys.Nodup := by
  induction e using cons_induction with
  | nil => exact List.nodup_nil
  | cons k v rest ih =>
    obtain ⟨hk, -, hrest⟩ := uniqueKeys_cons.1 h
    rw [keys_cons]
    exact List.nodup_cons.2 ⟨hk, ih hrest⟩

theorem mem_keys_congr {e e' : Entries} {k : Text} (h : e.get? k = e'.get? k) :
    k ∈ e.keys ↔ k ∈ e'.keys :=
  Decidable.not_iff_not.1 (by rw [← get?_eq_none_iff, ← get?_eq_none_iff, h])

/-! ### The same but for the order of siblings -/

/-- The same keys and scalars, and sections that are again equivalent; those that
keep their order are the same but for search orders, which are not written. -/
inductive SiblingEquivalent : Entries → Entries → Prop
  | intro {e e' : Entries} (keys : ∀ k, k ∈ e.keys ↔ k ∈ e'.keys)
      (scalars : ∀ k t, e.get? k = some (.scalar t) ↔ e'.get? k = some (.scalar t))
      (sections : ∀ k s s', k ≠ orderedKey → e.get? k = some (.nested s) →
        e'.get? k = some (.nested s') → SiblingEquivalent s.entries s'.entries)
      (ordered : ∀ s s', e.get? orderedKey = some (.nested s) →
        e'.get? orderedKey = some (.nested s') →
          s.entries.withoutOrders = s'.entries.withoutOrders) :
      SiblingEquivalent e e'

/-- Under a key both have nothing, the same scalar, or a section. -/
theorem SiblingEquivalent.alike {e e' : Entries} (h : e.SiblingEquivalent e') (k : Text) :
    (e.get? k = none ∧ e'.get? k = none) ∨
      (∃ t, e.get? k = some (.scalar t) ∧ e'.get? k = some (.scalar t)) ∨
      ∃ s s', e.get? k = some (.nested s) ∧ e'.get? k = some (.nested s') := by
  obtain ⟨keys, scalars, -, -⟩ := h
  cases hk : e.get? k with
  | none =>
    exact Or.inl ⟨rfl, get?_eq_none_iff.2 (mt (keys k).2 (get?_eq_none_iff.1 hk))⟩
  | some v =>
    cases v with
    | scalar t => exact Or.inr (Or.inl ⟨t, rfl, (scalars k t).1 hk⟩)
    | nested s =>
      cases hk' : e'.get? k with
      | none =>
        rw [get?_eq_none_iff.2 (mt (keys k).1 (get?_eq_none_iff.1 hk'))] at hk
        cases hk
      | some v' =>
        cases v' with
        | scalar t =>
          rw [(scalars k t).2 hk'] at hk
          cases hk
        | nested s' => exact Or.inr (Or.inr ⟨s, s', rfl, rfl⟩)

theorem SiblingEquivalent.exists_section {e e' : Entries} (h : e.SiblingEquivalent e') {k : Text}
    {s : Document} (hs : e.get? k = some (.nested s)) :
    ∃ s', e'.get? k = some (.nested s') := by
  rcases h.alike k with ⟨hk, -⟩ | ⟨t, hk, -⟩ | ⟨_, s', -, hk'⟩
  · rw [hs] at hk
    cases hk
  · rw [hs] at hk
    cases hk
  · exact ⟨s', hk'⟩

theorem SiblingEquivalent.symm {e e' : Entries} (h : e.SiblingEquivalent e') :
    e'.SiblingEquivalent e := by
  induction h with
  | intro keys scalars _ ordered ih =>
    exact .intro (fun k => (keys k).symm) (fun k t => (scalars k t).symm)
      (fun k s s' hne hs hs' => ih k s' s hne hs' hs) fun s s' hs hs' => (ordered s' s hs' hs).symm

theorem SiblingEquivalent.trans {e e' e'' : Entries} (h : e.SiblingEquivalent e')
    (h' : e'.SiblingEquivalent e'') : e.SiblingEquivalent e'' := by
  induction h generalizing e'' with
  | @intro e e' keys scalars sections ordered ih =>
    have h := SiblingEquivalent.intro keys scalars sections ordered
    obtain ⟨keys', scalars', sections', ordered'⟩ := h'
    refine .intro (fun k => (keys k).trans (keys' k))
      (fun k t => (scalars k t).trans (scalars' k t)) (fun k s s'' hne hs hs'' => ?_)
      fun s s'' hs hs'' => ?_
    · obtain ⟨s', hs'⟩ := h.exists_section hs
      exact ih k s s' hne hs hs' (sections' k s' s'' hne hs' hs'')
    · obtain ⟨s', hs'⟩ := h.exists_section hs
      exact (ordered s s' hs hs').trans (ordered' s' s'' hs' hs'')

/-- Siblings stand in the order of their keys, outside the sections that keep
theirs. -/
def InOrder : Entries → Prop
  | .nil => True
  | .scalar k _ rest => (∀ k' ∈ rest.keys, Text.atMost k k') ∧ rest.InOrder
  | .nested k _ inner rest =>
    (∀ k' ∈ rest.keys, Text.atMost k k') ∧ (k ≠ orderedKey → inner.InOrder) ∧ rest.InOrder

instance decidableInOrder : (e : Entries) → Decidable e.InOrder
  | .nil => .isTrue trivial
  | .scalar _ _ rest =>
    have := decidableInOrder rest
    inferInstanceAs (Decidable (_ ∧ _))
  | .nested _ _ inner rest =>
    have := decidableInOrder inner
    have := decidableInOrder rest
    inferInstanceAs (Decidable (_ ∧ _ ∧ _))

theorem inOrder_cons {key : Text} {v : Value} {rest : Entries} :
    (cons key v rest).InOrder ↔ (∀ k ∈ rest.keys, Text.atMost key k) ∧
      (∀ d ∈ v.section?, key ≠ orderedKey → d.entries.InOrder) ∧ rest.InOrder := by
  cases v with
  | scalar t => simp [cons, InOrder, Value.section?]
  | nested d => simp [cons, InOrder, Value.section?]

/-- Entries in order are the same if the same stands under every key. -/
theorem InOrder.ext {e e' : Entries} (h : e.InOrder) (h' : e'.InOrder) (hu : e.UniqueKeys)
    (hu' : e'.UniqueKeys) (hget : ∀ k, e.get? k = e'.get? k) : e = e' := by
  induction e using cons_induction generalizing e' with
  | nil =>
    rcases eq_nil_or_cons e' with rfl | ⟨k', v', rest', rfl⟩
    · rfl
    · exact absurd ((mem_keys_congr (hget k')).2 (by simp)) List.not_mem_nil
  | cons k v rest ih =>
    rcases eq_nil_or_cons e' with rfl | ⟨k', v', rest', rfl⟩
    · exact absurd ((mem_keys_congr (hget k)).1 (by simp)) List.not_mem_nil
    · obtain ⟨hfirst, -, hrest⟩ := inOrder_cons.1 h
      obtain ⟨hfirst', -, hrest'⟩ := inOrder_cons.1 h'
      obtain ⟨hk, -, hurest⟩ := uniqueKeys_cons.1 hu
      obtain ⟨hk', -, hurest'⟩ := uniqueKeys_cons.1 hu'
      -- Each of the first keys is at most the other one.
      obtain rfl : k = k' := by
        have hmem := (mem_keys_congr (hget k)).1 (by simp)
        have hmem' := (mem_keys_congr (hget k')).2 (by simp)
        rw [keys_cons, List.mem_cons] at hmem hmem'
        rcases hmem with he | hmem
        · exact he
        · rcases hmem' with he | hmem'
          · exact he.symm
          · exact Text.atMost_antisymm (hfirst k' hmem') (hfirst' k hmem)
      have hv := hget k
      rw [get?_cons, get?_cons, if_pos rfl, if_pos rfl] at hv
      have hsame : ∀ j, rest.get? j = rest'.get? j := by
        intro j
        by_cases hj : k = j
        · rw [← hj, get?_eq_none_iff.2 hk, get?_eq_none_iff.2 hk']
        · have := hget j
          rwa [get?_cons, get?_cons, if_neg hj, if_neg hj] at this
      rw [Option.some.inj hv, ih hrest hrest' hurest hurest' hsame]

/-! ### Putting siblings in order -/

/-- Puts an entry in front of the first one with a larger key. -/
def place (key : Text) (value : Value) : Entries → Entries
  | .nil => cons key value .nil
  | .scalar k t rest =>
    if Text.atMost key k then cons key value (.scalar k t rest)
    else .scalar k t (rest.place key value)
  | .nested k o inner rest =>
    if Text.atMost key k then cons key value (.nested k o inner rest)
    else .nested k o inner (rest.place key value)

/-- The entries in the order of their keys, outside the sections that keep their
order. -/
def arranged : Entries → Entries
  | .nil => .nil
  | .scalar k t rest => rest.arranged.place k (.scalar t)
  | .nested k o inner rest =>
    rest.arranged.place k (.nested ⟨if k = orderedKey then inner else inner.arranged, o⟩)

end Entries

/-- The document with its siblings in order. -/
def Document.arranged (d : Document) : Document := { d with entries := d.entries.arranged }

/-- What stands under a key, without search orders. -/
def Value.withoutOrders : Value → Value
  | .scalar t => .scalar t
  | .nested s => .nested s.withoutOrders

/-- What stands under a key, with the siblings below it in order. -/
def Value.arranged (key : Text) : Value → Value
  | .scalar t => .scalar t
  | .nested s => .nested (if key = orderedKey then s else s.arranged)

namespace Entries

variable {e : Entries} {key : Text} {v : Value}

theorem place_cons (k : Text) (w : Value) (rest : Entries) :
    (cons k w rest).place key v =
      if Text.atMost key k then cons key v (cons k w rest) else cons k w (rest.place key v) := by
  cases w <;> rfl

theorem arranged_cons (k : Text) (w : Value) (rest : Entries) :
    (cons k w rest).arranged = rest.arranged.place k (w.arranged k) := by
  cases w with
  | scalar t => rfl
  | nested s =>
    rw [cons, arranged, Value.arranged]
    split <;> rfl

theorem mem_keys_place {k : Text} : k ∈ (e.place key v).keys ↔ k = key ∨ k ∈ e.keys := by
  induction e using cons_induction with
  | nil => rw [place, keys_cons, List.mem_cons]
  | cons k' w rest ih =>
    rw [place_cons]
    split
    · rw [keys_cons, List.mem_cons]
    · rw [keys_cons, keys_cons, List.mem_cons, List.mem_cons, ih, or_left_comm]

theorem get?_place (h : key ∉ e.keys) (k : Text) :
    (e.place key v).get? k = if key = k then some v else e.get? k := by
  induction e using cons_induction with
  | nil => exact get?_cons key k v .nil
  | cons k' w rest ih =>
    rw [keys_cons] at h
    obtain ⟨hne, hrest⟩ := not_or.1 (mt List.mem_cons.2 h)
    rw [place_cons]
    split
    · exact get?_cons key k v _
    · rw [get?_cons, get?_cons, ih hrest]
      by_cases hk : k' = k
      · rw [if_pos hk, if_pos hk, if_neg (hk ▸ hne)]
      · rw [if_neg hk, if_neg hk]

theorem UniqueKeys.place (h : e.UniqueKeys) (hk : key ∉ e.keys)
    (hv : ∀ d ∈ v.section?, d.entries.UniqueKeys) : (e.place key v).UniqueKeys := by
  induction e using cons_induction with
  | nil => exact .cons hk hv trivial
  | cons k w rest ih =>
    rw [place_cons]
    split
    · exact .cons hk hv h
    · rw [keys_cons] at hk
      obtain ⟨hne, hnot⟩ := not_or.1 (mt List.mem_cons.2 hk)
      obtain ⟨hfirst, hw, hrest⟩ := uniqueKeys_cons.1 h
      exact .cons (fun hm => (mem_keys_place.1 hm).elim (Ne.symm hne) hfirst) hw (ih hrest hnot)

theorem InOrder.place (h : e.InOrder)
    (hv : ∀ d ∈ v.section?, key ≠ orderedKey → d.entries.InOrder) : (e.place key v).InOrder := by
  induction e using cons_induction with
  | nil => exact inOrder_cons.2 ⟨fun _ hk => absurd hk List.not_mem_nil, hv, h⟩
  | cons k w rest ih =>
    obtain ⟨hfirst, hw, hrest⟩ := inOrder_cons.1 h
    rw [place_cons]
    split
    · next hle =>
      refine inOrder_cons.2 ⟨fun k' hk' => ?_, hv, h⟩
      rw [keys_cons] at hk'
      rcases List.mem_cons.1 hk' with rfl | hk'
      · exact hle
      · exact Text.atMost_trans hle (hfirst k' hk')
    · next hgt =>
      refine inOrder_cons.2 ⟨fun k' hk' => ?_, hw, ih hrest⟩
      rcases mem_keys_place.1 hk' with rfl | hk'
      · have htotal := Text.atMost_total k' k
        rw [Bool.or_eq_true] at htotal
        exact htotal.resolve_left hgt
      · exact hfirst k' hk'

theorem mem_keys_arranged {k : Text} : k ∈ e.arranged.keys ↔ k ∈ e.keys := by
  induction e using cons_induction with
  | nil => rfl
  | cons k' w rest ih => rw [arranged_cons, mem_keys_place, ih, keys_cons, List.mem_cons]

theorem get?_arranged (h : e.UniqueKeys) (k : Text) :
    e.arranged.get? k = (e.get? k).map (Value.arranged k) := by
  induction e using cons_induction with
  | nil => rfl
  | cons k' w rest ih =>
    obtain ⟨hk, -, hrest⟩ := uniqueKeys_cons.1 h
    rw [arranged_cons, get?_place (mt mem_keys_arranged.1 hk), ih hrest, get?_cons]
    split
    · next he => rw [he, Option.map_some]
    · rfl

theorem UniqueKeys.arranged (h : e.UniqueKeys) : e.arranged.UniqueKeys := by
  induction e with
  | nil => trivial
  | scalar k t rest ih =>
    exact .place (ih h.2) (mt mem_keys_arranged.1 h.1) fun _ hd => by cases hd
  | nested k o inner rest ihi ih =>
    refine .place (ih h.2.2) (mt mem_keys_arranged.1 h.1) fun d hd => ?_
    cases hd
    dsimp only
    split
    · exact h.2.1
    · exact ihi h.2.1

/-- The siblings of the arranged entries are in order. -/
theorem inOrder_arranged (e : Entries) : e.arranged.InOrder := by
  induction e with
  | nil => trivial
  | scalar k t rest ih => exact ih.place fun _ hd => by cases hd
  | nested k o inner rest ihi ih =>
    refine ih.place fun d hd hne => ?_
    cases hd
    dsimp only
    rwa [if_neg hne]

/-- Only the order of siblings differs. -/
theorem siblingEquivalent_arranged (h : e.UniqueKeys) : e.SiblingEquivalent e.arranged := by
  induction e using section_induction with
  | step e ih =>
    refine .intro (fun k => mem_keys_arranged.symm) (fun k t => ?_) (fun k s s' hne hs hs' => ?_)
      fun s s' hs hs' => ?_
    · rw [get?_arranged h]
      cases e.get? k with
      | none => simp
      | some v => cases v <;> simp [Value.arranged]
    · rw [get?_arranged h, hs, Option.map_some, Value.arranged, if_neg hne] at hs'
      cases hs'
      exact ih k s hs (uniqueKeys_of_get? h hs)
    · rw [get?_arranged h, hs, Option.map_some, Value.arranged, if_pos rfl] at hs'
      cases hs'
      rfl

/-! ### The canonical form -/

theorem get?_withoutOrders (e : Entries) (k : Text) :
    e.withoutOrders.get? k = (e.get? k).map Value.withoutOrders := by
  induction e with
  | nil => rfl
  | scalar k' t rest ih =>
    rw [withoutOrders, get?, get?, ih]
    split <;> rfl
  | nested k' o inner rest _ ih =>
    rw [withoutOrders, get?, get?, ih]
    split <;> rfl

theorem InOrder.withoutOrders (h : e.InOrder) : e.withoutOrders.InOrder := by
  induction e with
  | nil => trivial
  | scalar k t rest ih => exact ⟨(keys_withoutOrders rest).symm ▸ h.1, ih h.2⟩
  | nested k o inner rest ihi ih =>
    exact ⟨(keys_withoutOrders rest).symm ▸ h.1, fun hk => ihi (h.2.1 hk), ih h.2.2⟩

theorem withoutOrders_withoutOrders (e : Entries) :
    e.withoutOrders.withoutOrders = e.withoutOrders := by
  induction e with
  | nil => rfl
  | scalar k t rest ih => rw [withoutOrders, withoutOrders, ih]
  | nested k o inner rest ihi ih => rw [withoutOrders, withoutOrders, ihi, ih]

/-- Search orders do not matter. -/
theorem siblingEquivalent_withoutOrders (e : Entries) : e.SiblingEquivalent e.withoutOrders := by
  induction e using section_induction with
  | step e ih =>
    refine .intro (fun k => by rw [keys_withoutOrders]) (fun k t => ?_)
      (fun k s s' hne hs hs' => ?_) fun s s' hs hs' => ?_
    · rw [get?_withoutOrders]
      cases e.get? k with
      | none => simp
      | some v => cases v <;> simp [Value.withoutOrders]
    · rw [get?_withoutOrders, hs] at hs'
      cases hs'
      exact ih k s hs
    · rw [get?_withoutOrders, hs] at hs'
      cases hs'
      exact (withoutOrders_withoutOrders s.entries).symm

/-- **The canonical form.**  Entries are equivalent if and only if they are the
same with their siblings in order and without search orders. -/
theorem siblingEquivalent_iff {e' : Entries} (hu : e.UniqueKeys) (hu' : e'.UniqueKeys) :
    e.SiblingEquivalent e' ↔ e.arranged.withoutOrders = e'.arranged.withoutOrders := by
  have hcanonical : ∀ {e : Entries}, e.UniqueKeys →
      e.SiblingEquivalent e.arranged.withoutOrders := fun hu =>
    (siblingEquivalent_arranged hu).trans (siblingEquivalent_withoutOrders _)
  constructor
  · intro h
    induction h with
    | @intro e e' keys scalars sections ordered ih =>
      refine (inOrder_arranged e).withoutOrders.ext (inOrder_arranged e').withoutOrders
        hu.arranged.withoutOrders hu'.arranged.withoutOrders fun k => ?_
      rw [get?_withoutOrders, get?_withoutOrders, get?_arranged hu, get?_arranged hu']
      rcases (SiblingEquivalent.intro keys scalars sections ordered).alike k with
        ⟨hk, hk'⟩ | ⟨t, hk, hk'⟩ | ⟨s, s', hk, hk'⟩
      · rw [hk, hk']
      · rw [hk, hk']
      · rw [hk, hk']
        by_cases hkey : k = orderedKey
        · subst hkey
          simp [Value.arranged, Value.withoutOrders, Document.withoutOrders, ordered s s' hk hk']
        · have hsame := ih k s s' hkey hk hk' (uniqueKeys_of_get? hu hk)
            (uniqueKeys_of_get? hu' hk')
          simp [Value.arranged, Value.withoutOrders, Document.withoutOrders, Document.arranged,
            hkey, hsame]
  · intro h
    exact (hcanonical hu).trans (h ▸ (hcanonical hu').symm)

end Entries

namespace Document

variable {d : Document}

theorem section?_arranged (h : d.UniqueKeys) (k : Text) :
    d.arranged.section? k =
      (d.section? k).map fun s => if k = orderedKey then s else s.arranged := by
  change (d.entries.arranged.get? k).bind _ = ((d.entries.get? k).bind _).map _
  rw [Entries.get?_arranged h]
  cases d.entries.get? k with
  | none => rfl
  | some v => cases v <;> rfl

/-- A section that keeps its order is as it was, with all that is in it. -/
theorem sectionAt?_arranged (h : d.UniqueKeys) (p : List Text) :
    sectionAt? (p ++ [orderedKey]) d.arranged = sectionAt? (p ++ [orderedKey]) d := by
  induction p generalizing d with
  | nil =>
    rw [List.nil_append, sectionAt?, sectionAt?, section?_arranged h]
    cases d.section? orderedKey <;> rfl
  | cons k p ih =>
    rw [List.cons_append, sectionAt?, sectionAt?, section?_arranged h]
    cases hs : d.section? k with
    | none => rfl
    | some s =>
      rw [Option.map_some, Option.bind_some, Option.bind_some]
      split
      · rfl
      · exact ih (h.section? hs)

end Document

end Wcl
