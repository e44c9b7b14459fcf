import Wcl.Document.Update

/-!
# Laws of inserting and merging

A section that is changed twice in a row is changed once by both changes
(`modifyAt_modifyAt`), and a path is followed in parts (`modifyAt_append`).

Merging a document into one that has none of its keys writes it behind the
other, entry by entry; so merging into the empty document gives the document
back (`update_empty`), as long as no key stands twice in a section.
-/

namespace Wcl

/-! ### Entry by entry -/

namespace Entries

theorem cons_induction {motive : Entries → Prop} (nil : motive .nil)
    (cons : ∀ k v rest, motive rest → motive (cons k v rest)) (e : Entries) : motive e := by
  induction e with
  | nil => exact nil
  | scalar k t rest ih => exact cons k (.scalar t) rest ih
  | nested k o inner rest _ ih => exact cons k (.nested ⟨inner, o⟩) rest ih

theorem eq_nil_or_cons (e : Entries) : e = .nil ∨ ∃ k v rest, e = cons k v rest := by
  cases e with
  | nil => exact Or.inl rfl
  | scalar k t rest => exact Or.inr ⟨k, .scalar t, rest, rfl⟩
  | nested k o inner rest => exact Or.inr ⟨k, .nested ⟨inner, o⟩, rest, rfl⟩

/-! ### One key -/

theorem insert_cons (key : Text) (v w : Value) (rest : Entries) :
    (cons key v rest).insert key w = cons key w rest := by
  cases v <;> simp [cons, insert]

theorem insert_insert (key : Text) (v w : Value) (e : Entries) :
    (e.insert key v).insert key w = e.insert key w := by
  induction e with
  | nil => exact insert_cons key v w .nil
  | scalar k t rest ih =>
    by_cases h : k = key
    · simp only [insert, if_pos h, insert_cons]
    · simp only [insert, if_neg h, ih]
  | nested k o inner rest _ ih =>
    by_cases h : k = key
    · simp only [insert, if_pos h, insert_cons]
    · simp only [insert, if_neg h, ih]

/-- The entries of one section behind those of another. -/
def append : Entries → Entries → Entries
  | .nil, e => e
  | .scalar k t rest, e => .scalar k t (rest.append e)
  | .nested k o inner rest, e => .nested k o inner (rest.append e)

@[simp] theorem append_nil (e : Entries) : e.append .nil = e := by
  induction e with
  | nil => rfl
  | scalar k t rest ih => rw [append, ih]
  | nested k o inner rest _ ih => rw [append, ih]

theorem append_assoc (a b c : Entries) : (a.append b).append c = a.append (b.append c) := by
  induction a with
  | nil => rfl
  | scalar k t rest ih => simp [append, ih]
  | nested k o inner rest _ ih => simp [append, ih]

theorem insert_of_notMem {key : Text} {e : Entries} (h : key ∉ e.keys) (v : Value) :
    e.insert key v = e.append (cons key v .nil) := by
  induction e with
  | nil => rfl
  | scalar k t rest ih =>
    obtain ⟨hk, hr⟩ := not_or.1 (mt List.mem_cons.2 h)
    rw [insert, if_neg (Ne.symm hk), ih hr, append]
  | nested k o inner rest _ ih =>
    obtain ⟨hk, hr⟩ := not_or.1 (mt List.mem_cons.2 h)
    rw [insert, if_neg (Ne.symm hk), ih hr, append]

theorem insert_eq_of_get? {e : Entries} {key : Text} {v : Value} (h : e.get? key = some v) :
    e.insert key v = e := by
  induction e with
  | nil => cases h
  | scalar k t rest ih =>
    by_cases hk : k = key
    · rw [get?, if_pos hk] at h
      cases h
      rw [insert, if_pos hk, ← hk]
      rfl
    · rw [get?, if_neg hk] at h
      rw [insert, if_neg hk, ih h]
  | nested k o inner rest _ ih =>
    by_cases hk : k = key
    · rw [get?, if_pos hk] at h
      cases h
      rw [insert, if_pos hk, ← hk]
      rfl
    · rw [get?, if_neg hk] at h
      rw [insert, if_neg hk, ih h]

theorem toList_remove (k : Text) (e : Entries) :
    (e.remove k).toList = e.toList.eraseP (·.1 = k) := by
  induction e with
  | nil => rfl
  | scalar k' t rest ih => by_cases h : k' = k <;> simp [remove, toList, h, ih]
  | nested k' o inner rest _ ih => by_cases h : k' = k <;> simp [remove, toList, h, ih]

theorem remove_of_notMem {k : Text} {e : Entries} (h : k ∉ e.keys) : e.remove k = e := by
  induction e with
  | nil => rfl
  | scalar k' t rest ih =>
    obtain ⟨hk, hr⟩ := not_or.1 (mt List.mem_cons.2 h)
    rw [remove, if_neg (Ne.symm hk), ih hr]
  | nested k' o inner rest _ ih =>
    obtain ⟨hk, hr⟩ := not_or.1 (mt List.mem_cons.2 h)
    rw [remove, if_neg (Ne.symm hk), ih hr]

end Entries

namespace Document

theorem insert_insert (d : Document) (key : Text) (v w : Value) :
    (d.insert key v).insert key w = d.insert key w := by
  simp [insert, Entries.insert_insert]

theorem insert_eq_of_get? {d : Document} {key : Text} {v : Value} (h : d.get? key = some v) :
    d.insert key v = d :=
  congrArg (Document.mk · d.searchOrder) (Entries.insert_eq_of_get? h)

@[simp] theorem sectionOrEmpty_insert (d : Document) (key : Text) (s : Document) :
    (d.insert key (.nested s)).sectionOrEmpty key = s := by
  simp [sectionOrEmpty, section?, Value.section?]

theorem mem_keys_insert {d : Document} {key key' : Text} {v : Value} :
    key' ∈ (d.insert key v).keys ↔ key' ∈ d.keys ∨ key' = key := by
  rw [keys_insert]
  by_cases h : key ∈ d.keys
  · rw [if_pos h]
    exact ⟨Or.inl, fun h' => h'.elim id (fun he => he ▸ h)⟩
  · rw [if_neg h, List.mem_append, List.mem_singleton]

theorem sectionOrEmpty_of_notMem {d : Document} {key : Text} (h : key ∉ d.keys) :
    d.sectionOrEmpty key = empty := by
  have hnone : d.get? key = none := Entries.get?_eq_none_iff.2 h
  simp [sectionOrEmpty, section?, hnone]

theorem get?_of_section? {d s : Document} {k : Text} (h : d.section? k = some s) :
    d.get? k = some (.nested s) := by
  obtain ⟨v, hv, hs⟩ := Option.bind_eq_some_iff.1 h
  cases v with
  | scalar t => cases hs
  | nested s' =>
    cases hs
    exact hv

theorem sectionOrEmpty_of_section? {d s : Document} {k : Text} (h : d.section? k = some s) :
    d.sectionOrEmpty k = s := by
  rw [sectionOrEmpty, h, Option.getD_some]

@[simp] theorem section?_insert_nested (d s : Document) (k : Text) :
    (d.insert k (.nested s)).section? k = some s := by
  simp [section?, Value.section?]

theorem section?_insert_of_ne {k k' : Text} (hne : k ≠ k') (d : Document) (v : Value) :
    (d.insert k v).section? k' = d.section? k' := by
  rw [section?, get?_insert, if_neg hne]
  rfl

theorem mem_keys_of_section? {d s : Document} {k : Text} (h : d.section? k = some s) :
    k ∈ d.keys := by
  have hget : d.get? k ≠ none := by
    rw [get?_of_section? h]
    exact Option.some_ne_none _
  exact Decidable.not_not.1 (mt Entries.get?_eq_none_iff.2 hget)

/-! ### Paths -/

theorem modifyAt_append (f : Document → Document) (p q : List Text) (d : Document) :
    modifyAt f (p ++ q) d = modifyAt (modifyAt f q) p d := by
  induction p generalizing d with
  | nil => rfl
  | cons k ks ih => rw [List.cons_append, modifyAt_cons, modifyAt_cons, ih]

theorem modifyAt_modifyAt (f g : Document → Document) (p : List Text) (d : Document) :
    modifyAt f p (modifyAt g p d) = modifyAt (fun d => f (g d)) p d := by
  induction p generalizing d with
  | nil => rfl
  | cons k ks ih =>
    rw [modifyAt_cons, modifyAt_cons, modifyAt_cons, sectionOrEmpty_insert, ih, insert_insert]

/-- A change to a section and a change inside it are one change to the section. -/
theorem modifyAt_inside (f g : Document → Document) (p q : List Text) (d : Document) :
    modifyAt f (p ++ q) (modifyAt g p d) = modifyAt (fun d => modifyAt f q (g d)) p d := by
  rw [modifyAt_append, modifyAt_modifyAt]

theorem sectionAt?_modifyAt (f : Document → Document) {p : List Text} {d s : Document}
    (hs : sectionAt? p d = some s) : sectionAt? p (modifyAt f p d) = some (f s) := by
  induction p generalizing d with
  | nil =>
    cases hs
    rfl
  | cons k ks ih =>
    obtain ⟨d', hd', hs⟩ := Option.bind_eq_some_iff.1 hs
    rw [modifyAt_cons, sectionOrEmpty_of_section? hd', sectionAt?, section?_insert_nested]
    exact ih hs

/-- A section that does not change leaves the document as it is. -/
theorem modifyAt_eq_self {f : Document → Document} {p : List Text} {d s : Document}
    (hs : sectionAt? p d = some s) (hf : f s = s) : modifyAt f p d = d := by
  induction p generalizing d with
  | nil =>
    cases hs
    exact hf
  | cons k ks ih =>
    obtain ⟨d', hd', hs⟩ := Option.bind_eq_some_iff.1 hs
    rw [modifyAt_cons, sectionOrEmpty_of_section? hd', ih hs,
      insert_eq_of_get? (get?_of_section? hd')]

end Document

/-! ### Merging -/

namespace Entries

/-- No key stands twice in a section.  Inserting keeps it so
(`UniqueKeys.insert`). -/
def UniqueKeys : Entries → Prop
  | .nil => True
  | .scalar k _ rest => k ∉ rest.keys ∧ rest.UniqueKeys
  | .nested k _ inner rest => k ∉ rest.keys ∧ inner.UniqueKeys ∧ rest.UniqueKeys

instance decidableUniqueKeys : (e : Entries) → Decidable e.UniqueKeys
  | .nil => .isTrue trivial
  | .scalar _ _ rest =>
    have := decidableUniqueKeys rest
    inferInstanceAs (Decidable (_ ∧ _))
  | .nested _ _ inner rest =>
    have := decidableUniqueKeys inner
    have := decidableUniqueKeys rest
    inferInstanceAs (Decidable (_ ∧ _ ∧ _))

theorem UniqueKeys.cons {key : Text} {v : Value} {rest : Entries} (hk : key ∉ rest.keys)
    (hv : ∀ d ∈ v.section?, d.entries.UniqueKeys) (h : rest.UniqueKeys) :
    (cons key v rest).UniqueKeys := by
  cases v with
  | scalar t => exact ⟨hk, h⟩
  | nested d => exact ⟨hk, hv d rfl, h⟩

theorem UniqueKeys.insert {e : Entries} (h : e.UniqueKeys) {v : Value}
    (hv : ∀ d ∈ v.section?, d.entries.UniqueKeys) (key : Text) :
    (e.insert key v).UniqueKeys := by
  have hkeys : ∀ {k : Text} {rest : Entries}, k ≠ key → k ∉ rest.keys →
      k ∉ (rest.insert key v).keys := by
    intro k rest hne hk
    rw [keys_insert]
    split
    · exact hk
    · simp [hk, hne]
  induction e with
  | nil => exact .cons List.not_mem_nil hv trivial
  | scalar k t rest ih =>
    by_cases hk : k = key
    · rw [Entries.insert, if_pos hk]
      exact .cons (hk ▸ h.1) hv h.2
    · rw [Entries.insert, if_neg hk]
      exact ⟨hkeys hk h.1, ih h.2⟩
  | nested k o inner rest _ ih =>
    by_cases hk : k = key
    · rw [Entries.insert, if_pos hk]
      exact .cons (hk ▸ h.1) hv h.2.2
    · rw [Entries.insert, if_neg hk]
      exact ⟨hkeys hk h.1, h.2.1, ih h.2.2⟩

theorem UniqueKeys.remove {e : Entries} (h : e.UniqueKeys) (key : Text) :
    (e.remove key).UniqueKeys := by
  have hkeys : ∀ {k : Text} {rest : Entries}, k ∉ rest.keys → k ∉ (rest.remove key).keys := by
    intro k rest hk hm
    rw [keys_remove] at hm
    exact hk (List.mem_of_mem_erase hm)
  induction e with
  | nil => trivial
  | scalar k t rest ih =>
    rw [Entries.remove]
    split
    · exact h.2
    · exact ⟨hkeys h.1, ih h.2⟩
  | nested k o inner rest _ ih =>
    rw [Entries.remove]
    split
    · exact h.2.2
    · exact ⟨hkeys h.1, h.2.1, ih h.2.2⟩

theorem uniqueKeys_of_get? {e : Entries} (h : e.UniqueKeys) {k : Text} {s : Document}
    (hs : e.get? k = some (.nested s)) : s.entries.UniqueKeys := by
  induction e with
  | nil => cases hs
  | scalar k' t rest ih =>
    rw [get?] at hs
    split at hs
    · cases hs
    · exact ih h.2 hs
  | nested k' o inner rest _ ih =>
    rw [get?] at hs
    split at hs
    · cases hs
      exact h.2.1
    · exact ih h.2.2 hs

/-- No section inside has a search order. -/
def Orderless : Entries → Prop
  | .nil => True
  | .scalar _ _ rest => rest.Orderless
  | .nested _ order inner rest => order = [] ∧ inner.Orderless ∧ rest.Orderless

/-- New entries come at the end, in their order. -/
theorem mergeInto_of_disjoint {e : Entries} (hu : e.UniqueKeys) (ho : e.Orderless) {d : Document}
    (hd : ∀ k ∈ e.keys, k ∉ d.keys) :
    e.mergeInto d = { d with entries := d.entries.append e } := by
  induction e generalizing d with
  | nil =>
    rw [mergeInto, append_nil]
  | scalar k t rest ih =>
    have hk : k ∉ d.keys := hd k (List.mem_cons_self ..)
    have hrest : ∀ key ∈ rest.keys, key ∉ (d.insert k (.scalar t)).keys := by
      intro key hmem hin
      rcases Document.mem_keys_insert.1 hin with hin | rfl
      · exact hd key (List.mem_cons_of_mem _ hmem) hin
      · exact hu.1 hmem
    rw [mergeInto, ih hu.2 ho hrest, Document.insert, insert_of_notMem hk, append_assoc]
    rfl
  | nested k o inner rest ihi ih =>
    obtain ⟨hkr, hui, hur⟩ := hu
    obtain ⟨rfl, hoi, hor⟩ := ho
    have hk : k ∉ d.keys := hd k (List.mem_cons_self ..)
    have hinner : inner.mergeInto .empty = ⟨inner, []⟩ :=
      ihi hui hoi (fun _ _ => List.not_mem_nil)
    have hrest : ∀ key ∈ rest.keys, key ∉ (d.insert k (.nested ⟨inner, []⟩)).keys := by
      intro key hmem hin
      rcases Document.mem_keys_insert.1 hin with hin | rfl
      · exact hd key (List.mem_cons_of_mem _ hmem) hin
      · exact hkr hmem
    rw [mergeInto, Document.sectionOrEmpty_of_notMem hk, hinner, ih hur hor hrest,
      Document.insert, insert_of_notMem hk, append_assoc]
    rfl

end Entries

namespace Document

/-- No key stands twice in the document or in a section of it. -/
def UniqueKeys (d : Document) : Prop := d.entries.UniqueKeys

instance (d : Document) : Decidable d.UniqueKeys := inferInstanceAs (Decidable d.entries.UniqueKeys)

/-- Every document that is built by inserting has unique keys. -/
theorem uniqueKeys_ofList {pairs : List (Text × Value)}
    (h : ∀ p ∈ pairs, ∀ d ∈ p.2.section?, d.UniqueKeys) : (ofList pairs).UniqueKeys := by
  have hfold : ∀ (d : Document), d.UniqueKeys →
      (pairs.foldl (fun d p => d.insert p.1 p.2) d).UniqueKeys := by
    induction pairs with
    | nil => exact fun d hd => hd
    | cons p pairs ih =>
      intro d hd
      exact ih (fun q hq => h q (List.mem_cons_of_mem _ hq)) _
        (hd.insert (h p (List.mem_cons_self ..)) p.1)
  exact hfold empty trivial

theorem update_empty {d : Document} (hu : d.UniqueKeys) (ho : d.entries.Orderless)
    (hs : d.searchOrder = []) : empty.update d = d := by
  rw [update, Entries.mergeInto_of_disjoint hu ho (fun _ _ => List.not_mem_nil)]
  cases d
  simp_all [empty, Entries.append]

end Document

end Wcl
