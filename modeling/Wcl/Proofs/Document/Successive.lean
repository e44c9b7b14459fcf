import Wcl.Proofs.Document.Paths

/-!
# Merging one document after another

Merging is associative as long as no scalar of the middle document makes a
section of the first give way to one of the last (`Separates`), and merging a
document a second time changes nothing (`update_successive`).

For the first law the last document is merged entry by entry: an entry goes into
the result of the first two as it goes into the second (`update_insert`), and a
section meets the same two sections either way (`sectionOrEmpty_update_of_not_separates`).

For the second law it is one key at a time.  What merging makes of the value
under a key hangs on that value alone (`Entries.onto`): it forgets it, leaves it,
or merges fewer entries into it (`Entries.onto_cases`).  So a second round puts
back under every key what is there; that keys may stand twice in what is merged
does not matter.
-/

namespace Wcl

/-! ### Entries one by one -/

namespace Entries

theorem mergeInto_append (e e' : Entries) (d : Document) :
    (e.append e').mergeInto d = e'.mergeInto (e.mergeInto d) := by
  induction e generalizing d with
  | nil => rfl
  | scalar k t rest ih => exact ih _
  | nested k o inner rest _ ih => exact ih _

theorem mem_keys_mergeInto (e : Entries) {d : Document} {key : Text} (h : key ∈ d.keys) :
    key ∈ (e.mergeInto d).keys := by
  induction e using cons_induction generalizing d with
  | nil => exact h
  | cons k v rest ih =>
    rw [mergeInto_cons]
    exact ih (Document.mem_keys_insert.2 (Or.inl h))

/-- A key whose value is exchanged afterwards has no part in merging. -/
theorem insert_mergeInto_insert (e : Entries) {d : Document} {key : Text} (hkey : key ∈ d.keys)
    (v w : Value) :
    (e.mergeInto (d.insert key v)).insert key w = (e.mergeInto d).insert key w := by
  induction e using cons_induction generalizing d v with
  | nil => exact Document.insert_insert d key v w
  | cons k u rest ih =>
    rw [mergeInto_cons, mergeInto_cons]
    by_cases hk : key = k
    · subst hk
      rw [Document.insert_insert, ih hkey, ih hkey]
    · rw [Document.overlay_insert_of_ne hk, ← Document.insert_comm hk v _ hkey]
      exact ih (Document.mem_keys_insert.2 (Or.inl hkey)) v

end Entries

/-! ### One key -/

/-- What merging a value makes of the one under its key. -/
def Value.onto (old : Option Value) : Value → Value
  | .scalar t => .scalar t
  | .nested s => .nested (((old.bind Value.section?).getD .empty).update s)

theorem Document.overlay_eq_onto (d : Document) (key : Text) (v : Value) :
    d.overlay key v = v.onto (d.get? key) := by
  cases v <;> rfl

namespace Entries

/-- What merging makes of the value under a key. -/
def onto (key : Text) : Entries → Option Value → Option Value
  | .nil, old => old
  | .scalar k t rest, old =>
    rest.onto key (if k = key then some ((Value.scalar t).onto old) else old)
  | .nested k order inner rest, old =>
    rest.onto key (if k = key then some ((Value.nested ⟨inner, order⟩).onto old) else old)

theorem onto_cons (key k : Text) (v : Value) (rest : Entries) (old : Option Value) :
    (cons k v rest).onto key old = rest.onto key (if k = key then some (v.onto old) else old) := by
  cases v <;> rfl

theorem get?_mergeInto_eq_onto (e : Entries) (d : Document) (key : Text) :
    (e.mergeInto d).get? key = e.onto key (d.get? key) := by
  induction e using cons_induction generalizing d with
  | nil => rfl
  | cons k v rest ih =>
    rw [mergeInto_cons, ih, Document.get?_insert, onto_cons, Document.overlay_eq_onto]
    by_cases hk : k = key
    · rw [if_pos hk, if_pos hk, hk]
    · rw [if_neg hk, if_neg hk]

theorem sizeOf_append (e e' : Entries) : sizeOf (e.append e') + 1 = sizeOf e + sizeOf e' := by
  induction e with
  | nil =>
    simp only [append, nil.sizeOf_spec]
    omega
  | scalar k t rest ih =>
    simp only [append, scalar.sizeOf_spec]
    omega
  | nested k o inner rest _ ih =>
    simp only [append, nested.sizeOf_spec]
    omega

theorem sizeOf_lt_cons (k : Text) (v : Value) (rest : Entries) :
    sizeOf rest < sizeOf (cons k v rest) := by
  cases v with
  | scalar t =>
    simp only [cons, scalar.sizeOf_spec]
    omega
  | nested s =>
    simp only [cons, nested.sizeOf_spec]
    omega

theorem sizeOf_add_lt_cons_nested (k : Text) (s : Document) (rest : Entries) :
    sizeOf s.entries + sizeOf rest < sizeOf (cons k (.nested s) rest) := by
  simp only [cons, nested.sizeOf_spec]
  omega

/-- The value is forgotten, or left, or a section has fewer entries merged into it. -/
theorem onto_cases (key : Text) (e : Entries) :
    (∃ new, ∀ old, e.onto key old = new) ∨ (∀ old, e.onto key old = old) ∨
      ∃ s : Entries, sizeOf s < sizeOf e ∧
        ∀ old, e.onto key old = some ((Value.nested ⟨s, []⟩).onto old) := by
  induction e using cons_induction with
  | nil => exact Or.inr (Or.inl fun _ => rfl)
  | cons k v rest ih =>
    by_cases hk : k = key
    · simp only [onto_cons, if_pos hk]
      cases v with
      | scalar t => exact Or.inl ⟨rest.onto key (some (.scalar t)), fun _ => rfl⟩
      | nested s =>
        have hsize := sizeOf_add_lt_cons_nested k s rest
        rcases ih with ⟨new, h⟩ | h | ⟨s', hs', h⟩
        · exact Or.inl ⟨new, fun _ => h _⟩
        · exact Or.inr (Or.inr ⟨s.entries, by omega, fun _ => h _⟩)
        · have happend := sizeOf_append s.entries s'
          exact Or.inr (Or.inr ⟨s.entries.append s', by omega, fun old =>
            (h _).trans (congrArg (fun d => some (Value.nested d))
              (mergeInto_append s.entries s' _).symm)⟩)
    · simp only [onto_cons, if_neg hk]
      rcases ih with h | h | ⟨s, hs, h⟩
      · exact Or.inl h
      · exact Or.inr (Or.inl h)
      · exact Or.inr (Or.inr ⟨s, Nat.lt_trans hs (sizeOf_lt_cons k v rest), h⟩)

/-- Merging twice under one key, if fewer entries may be merged twice. -/
theorem onto_onto {e : Entries} (key : Text)
    (h : ∀ s : Entries, sizeOf s < sizeOf e → ∀ d, s.mergeInto (s.mergeInto d) = s.mergeInto d)
    (old : Option Value) : e.onto key (e.onto key old) = e.onto key old := by
  rcases onto_cases key e with ⟨new, he⟩ | he | ⟨s, hs, he⟩
  · rw [he, he]
  · rw [he]
  · rw [he (e.onto key old), he old]
    exact congrArg (fun d => some (Value.nested d)) (h s hs _)

/-- Merging the same entries again changes nothing. -/
theorem mergeInto_mergeInto (e : Entries) (d : Document) :
    e.mergeInto (e.mergeInto d) = e.mergeInto d := by
  -- On the size: what goes into one section may come from several entries.
  induction hn : sizeOf e using Nat.strongRecOn generalizing e d with
  | ind n ih =>
    subst hn
    rcases eq_nil_or_cons e with rfl | ⟨k, v, rest, rfl⟩
    · rfl
    have hm := mergeInto_cons k v rest d
    have hget := get?_mergeInto_eq_onto (cons k v rest) d k
    generalize (cons k v rest).mergeInto d = m at hm hget
    have hmem : k ∈ m.keys := hm ▸ mem_keys_mergeInto rest (Document.mem_keys_insert_self _ _ _)
    obtain ⟨w, hw⟩ := Option.ne_none_iff_exists'.1 fun hnone => get?_eq_none_iff.1 hnone hmem
    have hagain : ((cons k v rest).mergeInto m).get? k = some w := by
      rw [get?_mergeInto_eq_onto, hget, onto_onto k (fun s hs d => ih _ hs s d rfl), ← hget]
      exact hw
    -- The key of the first entry has its value already; the rest is shorter.
    calc (cons k v rest).mergeInto m
        = ((cons k v rest).mergeInto m).insert k w := (Document.insert_eq_of_get? hagain).symm
      _ = (rest.mergeInto (m.insert k (m.overlay k v))).insert k w := by rw [mergeInto_cons]
      _ = (rest.mergeInto m).insert k w := insert_mergeInto_insert rest hmem _ w
      _ = m.insert k w := by rw [hm, ih _ (sizeOf_lt_cons k v rest) rest _ rfl]
      _ = m := Document.insert_eq_of_get? hw

end Entries

namespace Document

/-! ### Three documents -/

/-- A scalar of `b` stands where `a` and `c` both have a section. -/
def Separates (b a c : Document) : Prop :=
  ∃ p t s s', valueAt? p b = some (.scalar t) ∧ sectionAt? p a = some s ∧ sectionAt? p c = some s'

variable {a b c : Document}

/-- The entries behind the first are merged into documents that it was merged into. -/
theorem Separates.of_insert {k : Text} {v w : Value} {rest : Entries} {order : List Text}
    (hk : k ∉ rest.keys) (h : (b.insert k w).Separates a ⟨rest, order⟩) :
    b.Separates a ⟨.cons k v rest, order⟩ := by
  obtain ⟨p, t, s, s', hb, ha, hc⟩ := h
  cases p with
  | nil => cases hb
  | cons k' ks =>
    obtain ⟨s₁, hs₁, hc⟩ := Option.bind_eq_some_iff.1 hc
    have hget : rest.get? k' = some (.nested s₁) := get?_of_section? hs₁
    have hne : k ≠ k' := fun he => hk (he ▸ mem_keys_of_section? hs₁)
    refine ⟨k' :: ks, t, s, s', (valueAt?_insert_of_ne hne ks b w).symm.trans hb, ha, ?_⟩
    have hsection : section? ⟨.cons k v rest, order⟩ k' = some s₁ := by
      simp [section?, get?, hne, hget, Value.section?]
    rw [sectionAt?, hsection, Option.bind_some, hc]

theorem Separates.of_section {k : Text} {s : Document} (hs : c.section? k = some s)
    (h : (b.sectionOrEmpty k).Separates (a.sectionOrEmpty k) s) : b.Separates a c := by
  obtain ⟨p, t, s₁, s', hb, ha, hc⟩ := h
  have hne : p ≠ [] := by
    rintro rfl
    cases hb
  refine ⟨k :: p, t, s₁, s', (valueAt?_cons hne k b).trans hb, ?_, ?_⟩
  · have hempty : sectionAt? p empty = none := by
      obtain ⟨k', ks, rfl⟩ := List.exists_cons_of_ne_nil hne
      rfl
    rw [sectionOrEmpty] at ha
    rw [sectionAt?]
    cases hk : a.section? k with
    | some s₂ => rwa [hk] at ha
    | none =>
      rw [hk, Option.getD_none, hempty] at ha
      cases ha
  · rw [sectionAt?, hs, Option.bind_some, hc]

/-- A section of `c` meets the merged sections of the other two. -/
theorem sectionOrEmpty_update_of_not_separates {k : Text} {s : Document} (hb : b.UniqueKeys)
    (hs : c.section? k = some s) (h : ¬ b.Separates a c) :
    (a.update b).sectionOrEmpty k = (a.sectionOrEmpty k).update (b.sectionOrEmpty k) := by
  -- Only a scalar of `b` takes a section of `a` away, and there is none here.
  by_cases hscalar : ∃ t, b.get? k = some (.scalar t)
  · obtain ⟨t, ht⟩ := hscalar
    have hmerged : (a.update b).get? k = some (.scalar t) := by
      rw [get?_update hb, ht]
      rfl
    have ha : a.section? k = none := by
      cases ha : a.section? k with
      | none => rfl
      | some s₁ =>
        exact absurd ⟨[k], t, s₁, s, ht, by simp [sectionAt?, ha], by simp [sectionAt?, hs]⟩ h
    rw [sectionOrEmpty_of_scalar hmerged, sectionOrEmpty_of_scalar ht, sectionOrEmpty, ha]
    rfl
  · exact sectionOrEmpty_update hb a (not_exists.1 hscalar)

end Document

/-- Entries go into a merged document as they go into what was merged. -/
theorem Entries.mergeInto_update {e : Entries} (he : e.UniqueKeys) {a b : Document}
    (hb : b.UniqueKeys) {order : List Text} (h : ¬ b.Separates a ⟨e, order⟩) :
    e.mergeInto (a.update b) = a.update (e.mergeInto b) := by
  induction e generalizing a b order with
  | nil => rfl
  | scalar k t rest ih =>
    obtain ⟨hk, hrest⟩ := he
    have hb' : (b.insert k (.scalar t)).UniqueKeys := building_uniqueKeys.insert_scalar hb trivial
    have h' : ¬ (b.insert k (.scalar t)).Separates a ⟨rest, order⟩ :=
      mt (Document.Separates.of_insert (v := .scalar t) hk) h
    rw [mergeInto, mergeInto, ← ih hrest hb' h', Document.update_insert hb]
    rfl
  | nested k o inner rest ihi ih =>
    obtain ⟨hk, hui, hrest⟩ := he
    have hs : Document.section? ⟨nested k o inner rest, order⟩ k = some ⟨inner, o⟩ := by
      simp [Document.section?, Document.get?, get?, Value.section?]
    have hinner : inner.mergeInto ((a.update b).sectionOrEmpty k) =
        (a.sectionOrEmpty k).update (inner.mergeInto (b.sectionOrEmpty k)) := by
      rw [Document.sectionOrEmpty_update_of_not_separates hb hs h]
      exact ihi hui (hb.sectionOrEmpty k) (mt (Document.Separates.of_section hs) h)
    have hb' : (b.insert k (.nested (inner.mergeInto (b.sectionOrEmpty k)))).UniqueKeys :=
      building_uniqueKeys.insert_nested hb ((hb.sectionOrEmpty k).mergeInto inner) trivial
    have h' := mt (Document.Separates.of_insert (a := a) (b := b) (v := .nested ⟨inner, o⟩)
      (w := .nested (inner.mergeInto (b.sectionOrEmpty k))) hk) h
    rw [mergeInto, mergeInto, ← ih hrest hb' h', Document.update_insert hb, hinner]
    rfl

namespace Document

/-- **Merging one document after another.**  It is the same to merge the last
two first, if no scalar of the middle one stands where both others have a
section; and what has been merged once is not merged again. -/
theorem update_successive :
    (∀ {a b c : Document}, b.UniqueKeys → c.UniqueKeys → ¬ b.Separates a c →
      (a.update b).update c = a.update (b.update c)) ∧
    ∀ a b : Document, (a.update b).update b = a.update b :=
  ⟨fun hb hc h => Entries.mergeInto_update hc hb h, fun a b => b.entries.mergeInto_mergeInto a⟩

/-- Scalars of the middle document meet a section on one side only, and sections
of it a scalar on one side or on both. -/
theorem update_successive_nested :
    let a := ofList [
      ("s".toList, .nested ((ofList [
        ("x".toList, .scalar "1".toList),
        ("y".toList, .nested (ofList [("z".toList, .scalar "2".toList)]))]).withSearchOrder
          ["o".toList])),
      ("t".toList, .scalar "3".toList)]
    let b := ofList [
      ("t".toList, .nested (ofList [("v".toList, .scalar "4".toList)])),
      ("s".toList, .nested (ofList [
        ("y".toList, .scalar "5".toList),
        ("x".toList, .nested (ofList [("w".toList, .scalar "6".toList)]))]))]
    let c := ofList [
      ("u".toList, .scalar "7".toList),
      ("s".toList, .nested ((ofList [
        ("w".toList, .scalar "8".toList), ("x".toList, .scalar "9".toList)]).withSearchOrder
          ["p".toList]))]
    b.UniqueKeys ∧ c.UniqueKeys ∧ ¬ b.Separates a c ∧
      (a.update b).update c = a.update (b.update c) ∧ (a.update b).update b = a.update b := by
  intro a b c
  have hb : b.UniqueKeys := by decide
  have hc : c.UniqueKeys := by decide
  have h : ¬ b.Separates a c := by
    rintro ⟨p, t, s, s', hbp, -, hcp⟩
    rcases p with _ | ⟨k, ks⟩
    · cases hbp
    obtain ⟨s₁, hs₁, hcp⟩ := Option.bind_eq_some_iff.1 hcp
    have hk : k ∈ ["u".toList, "s".toList] := mem_keys_of_section? hs₁
    rw [List.mem_cons, List.mem_singleton] at hk
    rcases hk with rfl | rfl
    · cases hs₁
    · cases hs₁
      rcases ks with _ | ⟨k', ks⟩
      · cases hbp
      · obtain ⟨s₂, hs₂, -⟩ := Option.bind_eq_some_iff.1 hcp
        have hk : k' ∈ ["w".toList, "x".toList] := mem_keys_of_section? hs₂
        rw [List.mem_cons, List.mem_singleton] at hk
        rcases hk with rfl | rfl <;> cases hs₂
  exact ⟨hb, hc, h, update_successive.1 hb hc h, update_successive.2 a b⟩

/-- A scalar that stands between two sections keeps them apart, unless the last
two are merged first. -/
example :
    let a := ofList [("s".toList, .nested (ofList [("x".toList, .scalar "1".toList)]))]
    let b := ofList [("s".toList, .scalar "2".toList)]
    let c := ofList [("s".toList, .nested (ofList [("y".toList, .scalar "3".toList)]))]
    (a.update b).update c = c ∧ a.update (b.update c) = a.update c ∧ a.update c ≠ c := by
  decide

end Document

end Wcl
