import Wcl.Proofs.Document.Merge

/-!
# Merging key by key

What a merged document has under a key (`get?_update`), and how merging goes
with the changes that build a document: a value inserted into the document that
is merged is inserted into the result, over what stands there
(`update_insert`), and a change to one of its sections is made to the section
of the result (`modifyAt_update`), as long as no scalar of it has to make room
for that section.
-/

namespace Wcl

/-! ### Two keys -/

namespace Entries

/-- The order does not matter where the later key has its place already. -/
theorem insert_comm {key key' : Text} (hne : key ≠ key') (v w : Value) {e : Entries}
    (hkey : key ∈ e.keys) :
    (e.insert key' w).insert key v = (e.insert key v).insert key' w := by
  induction e with
  | nil => cases hkey
  | scalar k t rest ih =>
    by_cases hk : k = key
    · subst hk
      cases v <;> simp [insert, cons, hne]
    · have hrest : key ∈ rest.keys := (List.mem_cons.1 hkey).resolve_left (Ne.symm hk)
      by_cases hk' : k = key'
      · subst hk'
        cases w <;> simp [insert, cons, hk]
      · simp only [insert, if_neg hk, if_neg hk', ih hrest]
  | nested k o inner rest _ ih =>
    by_cases hk : k = key
    · subst hk
      cases v <;> simp [insert, cons, hne]
    · have hrest : key ∈ rest.keys := (List.mem_cons.1 hkey).resolve_left (Ne.symm hk)
      by_cases hk' : k = key'
      · subst hk'
        cases w <;> simp [insert, cons, hk]
      · simp only [insert, if_neg hk, if_neg hk', ih hrest]

end Entries

namespace Document

theorem insert_comm {key key' : Text} (hne : key ≠ key') (v w : Value) {d : Document}
    (hkey : key ∈ d.keys) :
    (d.insert key' w).insert key v = (d.insert key v).insert key' w :=
  congrArg (Document.mk · d.searchOrder) (Entries.insert_comm hne v w hkey)

theorem sectionOrEmpty_insert_of_ne {key key' : Text} (hne : key ≠ key') (d : Document)
    (v : Value) : (d.insert key v).sectionOrEmpty key' = d.sectionOrEmpty key' := by
  simp [sectionOrEmpty, section?, hne]

theorem mem_keys_insert_self (d : Document) (key : Text) (v : Value) :
    key ∈ (d.insert key v).keys := mem_keys_insert.2 (Or.inr rfl)

/-! ### What stands under a key -/

/-- The value that merging puts under a key: a scalar as it is, a section over
the one that is there. -/
def overlay (d : Document) (key : Text) : Value → Value
  | .scalar t => .scalar t
  | .nested s => .nested ((d.sectionOrEmpty key).update s)

theorem overlay_insert_of_ne {key key' : Text} (hne : key ≠ key') (d : Document) (v w : Value) :
    (d.insert key v).overlay key' w = d.overlay key' w := by
  cases w with
  | scalar t => rfl
  | nested s => rw [overlay, overlay, sectionOrEmpty_insert_of_ne hne]

end Document

namespace Entries

variable {e rest : Entries}

theorem mergeInto_cons (key : Text) (v : Value) (rest : Entries) (d : Document) :
    (cons key v rest).mergeInto d = rest.mergeInto (d.insert key (d.overlay key v)) := by
  cases v <;> rfl

/-- A key that is not merged keeps its value. -/
theorem get?_mergeInto_of_notMem {key : Text} (h : key ∉ e.keys) (d : Document) :
    (e.mergeInto d).get? key = d.get? key := by
  induction e generalizing d with
  | nil => rfl
  | scalar k t rest ih =>
    obtain ⟨hk, hrest⟩ := not_or.1 (mt List.mem_cons.2 h)
    rw [mergeInto, ih hrest, Document.get?_insert, if_neg (Ne.symm hk)]
  | nested k o inner rest _ ih =>
    obtain ⟨hk, hrest⟩ := not_or.1 (mt List.mem_cons.2 h)
    rw [mergeInto, ih hrest, Document.get?_insert, if_neg (Ne.symm hk)]

theorem get?_mergeInto (hu : e.UniqueKeys) (d : Document) (key : Text) :
    (e.mergeInto d).get? key = match e.get? key with
      | none => d.get? key
      | some v => some (d.overlay key v) := by
  induction e generalizing d with
  | nil => rfl
  | scalar k t rest ih =>
    by_cases hk : k = key
    · subst hk
      rw [mergeInto, get?_mergeInto_of_notMem hu.1, Document.get?_insert, if_pos rfl, get?,
        if_pos rfl]
      rfl
    · rw [mergeInto, ih hu.2, get?, if_neg hk]
      cases rest.get? key with
      | none => simp [hk]
      | some v => simp only [Document.overlay_insert_of_ne hk]
  | nested k o inner rest _ ih =>
    by_cases hk : k = key
    · subst hk
      rw [mergeInto, get?_mergeInto_of_notMem hu.1, Document.get?_insert, if_pos rfl, get?,
        if_pos rfl]
      rfl
    · rw [mergeInto, ih hu.2.2, get?, if_neg hk]
      cases rest.get? key with
      | none => simp [hk]
      | some v => simp only [Document.overlay_insert_of_ne hk]

theorem insert_mergeInto {key : Text} (h : key ∉ e.keys) {d : Document} (hkey : key ∈ d.keys)
    (v : Value) : (e.mergeInto d).insert key v = e.mergeInto (d.insert key v) := by
  induction e generalizing d with
  | nil => rfl
  | scalar k t rest ih =>
    obtain ⟨hk, hrest⟩ := not_or.1 (mt List.mem_cons.2 h)
    rw [mergeInto, mergeInto, ih hrest (Document.mem_keys_insert.2 (Or.inl hkey)),
      Document.insert_comm hk v _ hkey]
  | nested k o inner rest _ ih =>
    obtain ⟨hk, hrest⟩ := not_or.1 (mt List.mem_cons.2 h)
    rw [mergeInto, mergeInto, ih hrest (Document.mem_keys_insert.2 (Or.inl hkey)),
      Document.insert_comm hk v _ hkey, Document.sectionOrEmpty_insert_of_ne hk]

/-- The front entry exchanged before or after merging. -/
theorem mergeInto_cons_insert {key : Text} (h : key ∉ rest.keys) (d : Document) (v w : Value) :
    (rest.mergeInto (d.insert key v)).insert key w = rest.mergeInto (d.insert key w) := by
  rw [insert_mergeInto h (Document.mem_keys_insert_self d key v), Document.insert_insert]

theorem mergeInto_insert (hu : e.UniqueKeys) (d : Document) (key : Text) (v : Value) :
    (e.insert key v).mergeInto d = (e.mergeInto d).insert key (d.overlay key v) := by
  induction e generalizing d with
  | nil => rw [insert, mergeInto_cons]; rfl
  | scalar k t rest ih =>
    by_cases hk : k = key
    · subst hk
      rw [insert, if_pos rfl, mergeInto_cons, mergeInto, mergeInto_cons_insert hu.1]
    · rw [insert, if_neg hk, mergeInto, mergeInto, ih hu.2, Document.overlay_insert_of_ne hk]
  | nested k o inner rest _ ih =>
    by_cases hk : k = key
    · subst hk
      rw [insert, if_pos rfl, mergeInto_cons, mergeInto, mergeInto_cons_insert hu.1]
    · rw [insert, if_neg hk, mergeInto, mergeInto, ih hu.2.2, Document.overlay_insert_of_ne hk]

end Entries

namespace Document

variable {a : Document}

/-- **What a merged document has under a key.** -/
theorem get?_update (hu : a.UniqueKeys) (d : Document) (key : Text) :
    (d.update a).get? key = match a.get? key with
      | none => d.get? key
      | some v => some (d.overlay key v) :=
  Entries.get?_mergeInto hu d key

/-- **Inserting into what is merged** is inserting into the result. -/
theorem update_insert (hu : a.UniqueKeys) (d : Document) (key : Text) (v : Value) :
    d.update (a.insert key v) = (d.update a).insert key (d.overlay key v) :=
  Entries.mergeInto_insert hu d key v

theorem sectionOrEmpty_update (hu : a.UniqueKeys) (d : Document) {key : Text}
    (hscalar : ∀ t, a.get? key ≠ some (.scalar t)) :
    (d.update a).sectionOrEmpty key = (d.sectionOrEmpty key).update (a.sectionOrEmpty key) := by
  cases ha : a.get? key with
  | none =>
    have hget : (d.update a).get? key = d.get? key := by rw [get?_update hu, ha]
    have hempty : a.sectionOrEmpty key = empty := by simp [sectionOrEmpty, section?, ha]
    have hsame : (d.update a).sectionOrEmpty key = d.sectionOrEmpty key := by
      rw [sectionOrEmpty, section?, hget, sectionOrEmpty, section?]
    rw [hempty, hsame]
    rfl
  | some v =>
    cases v with
    | scalar t => exact absurd ha (hscalar t)
    | nested s =>
      have hget : (d.update a).get? key = some (.nested ((d.sectionOrEmpty key).update s)) := by
        rw [get?_update hu, ha]
        rfl
      simp [sectionOrEmpty, section?, Value.section?, hget, ha]

/-- A change to a section of what is merged is made to the section of the
result. -/
theorem modifyAt_update (hu : a.UniqueKeys) (d : Document) {key : Text}
    (hscalar : ∀ t, a.get? key ≠ some (.scalar t)) {f : Document → Document}
    (hf : f ((d.sectionOrEmpty key).update (a.sectionOrEmpty key)) =
      (d.sectionOrEmpty key).update (f (a.sectionOrEmpty key))) :
    modifyAt f [key] (d.update a) = d.update (modifyAt f [key] a) := by
  rw [modifyAt_cons, modifyAt_nil, sectionOrEmpty_update hu d hscalar, hf, modifyAt_cons,
    modifyAt_nil, update_insert hu]
  rfl

end Document

end Wcl
