import Wcl.Proofs.Document.Building
import Wcl.Proofs.Document.Overlay

/-!
# Merging path by path

What a document holds at a path after `b` was merged into it is settled by what
it held there before and what `b` holds there and on the way: a scalar of `b`
overwrites, a section of `b` merges with the section there or comes in as it is,
and a path that `b` says nothing about keeps its value (`Overlaid`,
`overlaid_update`).

All of it comes from two laws that follow the path key by key: at a path that is
a section of `b` the result has the two sections merged (`sectionAt?_update`),
and at a path below no scalar of `b` where `b` has nothing the result has what
was there (`valueAt?_update_of_none`).
-/

namespace Wcl

/-! ### Sections without their search orders -/

/-- The same entries at every depth, in sections without a search order. -/
def Entries.withoutOrders : Entries → Entries
  | .nil => .nil
  | .scalar k t rest => .scalar k t rest.withoutOrders
  | .nested k _ inner rest => .nested k [] inner.withoutOrders rest.withoutOrders

/-- The same document, without a search order at any depth. -/
def Document.withoutOrders (d : Document) : Document := { entries := d.entries.withoutOrders }

namespace Entries

@[simp] theorem keys_withoutOrders (e : Entries) : e.withoutOrders.keys = e.keys := by
  induction e with
  | nil => rfl
  | scalar k t rest ih => simp [withoutOrders, keys, ih]
  | nested k o inner rest _ ih => simp [withoutOrders, keys, ih]

theorem orderless_withoutOrders (e : Entries) : e.withoutOrders.Orderless := by
  induction e with
  | nil => trivial
  | scalar k t rest ih => exact ih
  | nested k o inner rest ihi ih => exact ⟨rfl, ihi, ih⟩

theorem UniqueKeys.withoutOrders {e : Entries} (h : e.UniqueKeys) :
    e.withoutOrders.UniqueKeys := by
  induction e with
  | nil => trivial
  | scalar k t rest ih => exact ⟨(keys_withoutOrders rest).symm ▸ h.1, ih h.2⟩
  | nested k o inner rest ihi ih =>
    exact ⟨(keys_withoutOrders rest).symm ▸ h.1, ihi h.2.1, ih h.2.2⟩

/-- Search orders are not merged. -/
theorem mergeInto_withoutOrders (e : Entries) (d : Document) :
    e.withoutOrders.mergeInto d = e.mergeInto d := by
  induction e generalizing d with
  | nil => rfl
  | scalar k t rest ih => rw [withoutOrders, mergeInto, mergeInto, ih]
  | nested k o inner rest ihi ih => rw [withoutOrders, mergeInto, mergeInto, ihi, ih]

end Entries

namespace Document

/-- What is merged into the empty document comes in as it is. -/
theorem empty_update {d : Document} (hu : d.UniqueKeys) : empty.update d = d.withoutOrders := by
  have hplain : empty.update d.withoutOrders = d.withoutOrders :=
    update_empty hu.withoutOrders d.entries.orderless_withoutOrders rfl
  rw [← hplain]
  exact (d.entries.mergeInto_withoutOrders empty).symm

/-! ### Following a path -/

theorem valueAt?_empty (p : List Text) : valueAt? p empty = none := by
  match p with
  | [] => rfl
  | [_] => rfl
  | _ :: _ :: _ => rfl

/-- A path goes on in the section under its first key. -/
theorem valueAt?_cons {ks : List Text} (h : ks ≠ []) (k : Text) (d : Document) :
    valueAt? (k :: ks) d = valueAt? ks (d.sectionOrEmpty k) := by
  cases ks with
  | nil => exact absurd rfl h
  | cons k' ks =>
    change (d.section? k).bind _ = _
    rw [sectionOrEmpty]
    cases d.section? k with
    | none => exact (valueAt?_empty _).symm
    | some s => rfl

theorem valueAt?_insert_of_ne {k k' : Text} (hne : k ≠ k') (ks : List Text) (d : Document)
    (v : Value) : valueAt? (k' :: ks) (d.insert k v) = valueAt? (k' :: ks) d := by
  cases ks with
  | nil => exact (get?_insert d k k' v).trans (if_neg hne)
  | cons k'' ks =>
    rw [valueAt?_cons (List.cons_ne_nil _ _), valueAt?_cons (List.cons_ne_nil _ _),
      sectionOrEmpty_insert_of_ne hne]

theorem sectionOrEmpty_of_scalar {d : Document} {k t : Text} (h : d.get? k = some (.scalar t)) :
    d.sectionOrEmpty k = empty := by
  simp [sectionOrEmpty, section?, Value.section?, h]

/-- Nothing stands below a scalar. -/
theorem valueAt?_append_of_scalar {p q : List Text} (hq : q ≠ []) {d : Document} {t : Text}
    (h : valueAt? p d = some (.scalar t)) : valueAt? (p ++ q) d = none := by
  induction p generalizing d with
  | nil => cases h
  | cons k ks ih =>
    rw [List.cons_append, valueAt?_cons (List.append_ne_nil_of_right_ne_nil ks hq)]
    cases ks with
    | nil => rw [sectionOrEmpty_of_scalar h, valueAt?_empty]
    | cons k' ks => exact ih ((valueAt?_cons (List.cons_ne_nil _ _) k d).symm.trans h)

theorem sectionAt?_eq_bind {p : List Text} (hp : p ≠ []) (d : Document) :
    sectionAt? p d = (valueAt? p d).bind Value.section? := by
  induction p generalizing d with
  | nil => exact absurd rfl hp
  | cons k ks ih =>
    cases ks with
    | nil => exact Option.bind_fun_some _
    | cons k' ks =>
      change (d.section? k).bind _ = ((d.section? k).bind _).bind _
      cases d.section? k with
      | none => rfl
      | some s => exact ih (List.cons_ne_nil _ _) s

theorem getD_sectionAt?_cons (k : Text) (ks : List Text) (d : Document) :
    (sectionAt? (k :: ks) d).getD empty = (sectionAt? ks (d.sectionOrEmpty k)).getD empty := by
  rw [sectionAt?, sectionOrEmpty]
  cases d.section? k with
  | some s => rfl
  | none => cases ks <;> rfl

/-! ### The two documents along a path -/

variable {a b : Document}

theorem section?_update {k : Text} {s : Document} (hb : b.UniqueKeys)
    (h : b.section? k = some s) :
    (a.update b).section? k = some ((a.sectionOrEmpty k).update s) := by
  rw [section?, get?_update hb, get?_of_section? h]
  rfl

/-- A section of `b` merges with the section there, or with an empty one. -/
theorem sectionAt?_update {p : List Text} {s : Document} (hb : b.UniqueKeys)
    (h : sectionAt? p b = some s) :
    sectionAt? p (a.update b) = some (((sectionAt? p a).getD empty).update s) := by
  induction p generalizing a b with
  | nil =>
    cases h
    rfl
  | cons k ks ih =>
    obtain ⟨b', hb', h⟩ := Option.bind_eq_some_iff.1 h
    rw [sectionAt?, section?_update hb hb', Option.bind_some, ih (hb.section? hb') h,
      getD_sectionAt?_cons]

theorem valueAt?_update_scalar {p : List Text} {t : Text} (hb : b.UniqueKeys)
    (h : valueAt? p b = some (.scalar t)) : valueAt? p (a.update b) = some (.scalar t) := by
  induction p generalizing a b with
  | nil => cases h
  | cons k ks ih =>
    cases ks with
    | nil =>
      have hget : b.get? k = some (.scalar t) := h
      change (a.update b).get? k = _
      rw [get?_update hb, hget]
      rfl
    | cons k' ks =>
      have hne : k' :: ks ≠ [] := List.cons_ne_nil _ _
      -- A scalar under the first key would leave nothing at the path.
      have hscalar : ∀ t', b.get? k ≠ some (.scalar t') := by
        intro t' ht'
        rw [valueAt?_cons hne, sectionOrEmpty_of_scalar ht', valueAt?_empty] at h
        cases h
      rw [valueAt?_cons hne] at h
      rw [valueAt?_cons hne, sectionOrEmpty_update hb a hscalar]
      exact ih (hb.sectionOrEmpty k) h

/-- A path that `b` has nothing at, and no scalar before, keeps its value. -/
theorem valueAt?_update_of_none {p : List Text} (hb : b.UniqueKeys) (h : valueAt? p b = none)
    (hclear : ∀ q t, q <+: p → q ≠ p → valueAt? q b ≠ some (.scalar t)) :
    valueAt? p (a.update b) = valueAt? p a := by
  induction p generalizing a b with
  | nil => rfl
  | cons k ks ih =>
    cases ks with
    | nil =>
      have hget : b.get? k = none := h
      change (a.update b).get? k = a.get? k
      rw [get?_update hb, hget]
    | cons k' ks =>
      have hne : k' :: ks ≠ [] := List.cons_ne_nil _ _
      have hscalar : ∀ t, b.get? k ≠ some (.scalar t) := fun t =>
        hclear [k] t (List.prefix_append [k] _) (by simp)
      rw [valueAt?_cons hne] at h
      rw [valueAt?_cons hne, valueAt?_cons hne, sectionOrEmpty_update hb a hscalar]
      refine ih (hb.sectionOrEmpty k) h fun q t hq hqne ht => ?_
      have hqnil : q ≠ [] := by
        rintro rfl
        cases ht
      have hkne : k :: q ≠ k :: k' :: ks := fun he => hqne (List.cons.inj he).2
      refine hclear (k :: q) t ((List.prefix_cons_inj k).2 hq) hkne ?_
      rw [valueAt?_cons hqnil, ht]

end Document

/-! ### The order of the keys -/

/-- The next key of some is one of those that are there or the first new one. -/
theorem Document.keys_insert_append_filter {d : Document} {k : Text} {ks : List Text}
    (hk : k ∉ ks) (v : Value) :
    (d.insert k v).keys ++ ks.filter (· ∉ (d.insert k v).keys) =
      d.keys ++ (k :: ks).filter (· ∉ d.keys) := by
  by_cases hd : k ∈ d.keys
  · simp [keys_insert, hd]
  · have hfilter : ks.filter (· ∉ d.keys ++ [k]) = ks.filter (· ∉ d.keys) :=
      List.filter_congr fun key hm => by
        have hne : key ≠ k := fun he => hk (he ▸ hm)
        simp [hne]
    rw [keys_insert, if_neg hd, hfilter, List.filter_cons_of_pos (by simpa using hd),
      List.append_assoc]
    rfl

/-- Keys that are there stay in their places, and new ones come at the end. -/
theorem Entries.keys_mergeInto {e : Entries} (hu : e.UniqueKeys) (d : Document) :
    (e.mergeInto d).keys = d.keys ++ e.keys.filter (· ∉ d.keys) := by
  induction e generalizing d with
  | nil => simp [mergeInto, keys]
  | scalar k t rest ih =>
    rw [mergeInto, ih hu.2, Document.keys_insert_append_filter hu.1]
    rfl
  | nested k o inner rest _ ih =>
    rw [mergeInto, ih hu.2.2, Document.keys_insert_append_filter hu.1]
    rfl

namespace Document

variable {a b : Document}

theorem keys_update (hb : b.UniqueKeys) (a : Document) :
    (a.update b).keys = a.keys ++ b.keys.filter (· ∉ a.keys) :=
  Entries.keys_mergeInto hb a

/-! ### Path by path -/

/-- The document `m` holds at every path what `b` holds over `a`. -/
structure Overlaid (a b m : Document) : Prop where
  /-- The search order is that of `a`. -/
  searchOrder : m.searchOrder = a.searchOrder
  /-- Where both have a section, the new keys come behind those of `a`; the
  empty path is the whole document. -/
  both {p : List Text} {s s' : Document} : sectionAt? p a = some s → sectionAt? p b = some s' →
    ∃ r, sectionAt? p m = some r ∧ r.keys = s.keys ++ s'.keys.filter (· ∉ s.keys) ∧
      r.searchOrder = s.searchOrder
  /-- Where only `b` has a section, it is that one. -/
  added {p : List Text} {s : Document} : sectionAt? p a = none → sectionAt? p b = some s →
    sectionAt? p m = some s.withoutOrders
  /-- A scalar of `b` overwrites, with all that stood below its path. -/
  scalar {p : List Text} {t : Text} : valueAt? p b = some (.scalar t) →
    valueAt? p m = some (.scalar t) ∧ ∀ q ≠ [], valueAt? (p ++ q) m = none
  /-- Anything else is as it was. -/
  kept {p : List Text} : valueAt? p b = none →
    (∀ q t, q <+: p → q ≠ p → valueAt? q b ≠ some (.scalar t)) → valueAt? p m = valueAt? p a

/-- **Merging is settled path by path.** -/
theorem overlaid_update (hb : b.UniqueKeys) (a : Document) : Overlaid a b (a.update b) where
  searchOrder := searchOrder_update a b
  both := by
    intro p s s' ha hs'
    have hmerged := sectionAt?_update (a := a) hb hs'
    have hu : s'.UniqueKeys := hb.sectionAt? hs'
    rw [ha, Option.getD_some] at hmerged
    exact ⟨s.update s', hmerged, keys_update hu s, searchOrder_update s s'⟩
  added := by
    intro p s ha hs
    rw [sectionAt?_update hb hs, ha, Option.getD_none, empty_update (hb.sectionAt? hs)]
  scalar := by
    intro p t h
    have hm := valueAt?_update_scalar (a := a) hb h
    exact ⟨hm, fun q hq => valueAt?_append_of_scalar hq hm⟩
  kept := valueAt?_update_of_none hb

/-- A scalar meets a section both ways round, one level down, where two sections
with search orders of their own meet. -/
theorem overlaid_update_nested :
    let a := (ofList [
      ("s".toList, .nested ((ofList [
        ("k".toList, .scalar "1".toList),
        ("x".toList, .scalar "2".toList),
        ("y".toList, .nested (ofList [("z".toList, .scalar "3".toList)]))]).withSearchOrder
          ["o".toList])),
      ("t".toList, .scalar "4".toList)]).withSearchOrder ["s".toList]
    let b := (ofList [
      ("u".toList, .nested ((ofList [("v".toList, .scalar "5".toList)]).withSearchOrder
        ["v".toList])),
      ("s".toList, .nested ((ofList [
        ("y".toList, .scalar "6".toList),
        ("w".toList, .scalar "7".toList),
        ("x".toList, .nested (ofList [("z".toList, .scalar "8".toList)]))]).withSearchOrder
          ["p".toList]))]).withSearchOrder ["u".toList]
    b.UniqueKeys ∧ Overlaid a b (a.update b) ∧
      a.update b = (ofList [
        ("s".toList, .nested ((ofList [
          ("k".toList, .scalar "1".toList),
          ("x".toList, .nested (ofList [("z".toList, .scalar "8".toList)])),
          ("y".toList, .scalar "6".toList),
          ("w".toList, .scalar "7".toList)]).withSearchOrder ["o".toList])),
        ("t".toList, .scalar "4".toList),
        ("u".toList, .nested (ofList [("v".toList, .scalar "5".toList)]))]).withSearchOrder
          ["s".toList] := by
  intro a b
  have hb : b.UniqueKeys := by decide
  exact ⟨hb, overlaid_update hb a, by decide⟩

end Document

end Wcl
