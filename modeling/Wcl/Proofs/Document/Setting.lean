import Wcl.Proofs.Document.Layers
import Wcl.Proofs.Document.Operations

/-!
# Setting a value at a dotted key

Setting a value fails where the way to it does: at the shortest beginning of the
path, short of the whole, that does not lead to a section (`Breaks`,
`setAt_eq_error_iff`).  As a change in place it goes down section by section and
writes each one back, also when it has failed further down; nothing has changed
then (`put_eq`).

If it succeeds the value stands at the path, every path that leads neither to it
nor on from it has what it had, and no section beside the value loses a key or
its order (`SetTo`, `setTo_of_setAt`).  A look-up of the key then finds the value,
since a dotted key is looked up along its path: `set_outcome`.
-/

namespace Wcl.Document

variable {d d' : Document} {k : Text} {v : Value} {e : Error} {p q path : List Text}

/-! ### Where the way breaks off -/

/-- The shortest beginning of a path, short of the whole, that does not lead to a
section is `q`, and `k` behind it. -/
structure Breaks (d : Document) (path q : List Text) (k : Text) : Prop where
  front : q ++ [k] <+: path
  short : q ++ [k] ≠ path
  missing : sectionAt? (q ++ [k]) d = none
  shortest : ∀ p, p <+: q ++ [k] → p ≠ q ++ [k] → (sectionAt? p d).isSome

theorem sectionAt?_cons_of_section? {s : Document} (hs : d.section? k = some s) (p : List Text) :
    sectionAt? (k :: p) d = sectionAt? p s := by
  rw [sectionAt?, hs, Option.bind_some]

theorem breaks_cons_of_none (hs : d.section? k = none) {ks : List Text} (hks : ks ≠ [])
    {j : Text} : Breaks d (k :: ks) q j ↔ q = [] ∧ j = k := by
  have hmissing : ∀ p, sectionAt? (k :: p) d = none := fun p => by
    rw [sectionAt?, hs, Option.bind_none]
  constructor
  · intro h
    cases q with
    | nil => exact ⟨rfl, (List.cons_prefix_cons.1 h.front).1⟩
    | cons k' q =>
      obtain ⟨rfl, _⟩ := List.cons_prefix_cons.1 h.front
      have hshort : [k'] ≠ (k' :: q) ++ [j] := by simp
      have hfound := h.shortest [k'] (List.prefix_append [k'] (q ++ [j])) hshort
      rw [hmissing] at hfound
      cases hfound
  · rintro ⟨rfl, rfl⟩
    refine ⟨List.prefix_append [j] ks, ?_, hmissing [], fun p hp hne => ?_⟩
    · rintro he
      exact hks (List.cons.inj he).2.symm
    · cases p with
      | nil => rfl
      | cons k' p =>
        obtain ⟨rfl, hrest⟩ := List.cons_prefix_cons.1 hp
        exact absurd (congrArg (k' :: ·) (List.prefix_nil.1 hrest)) hne

theorem not_breaks_nil {s : Document} (hs : d.section? k = some s) {ks : List Text} {j : Text} :
    ¬ Breaks d (k :: ks) [] j := by
  intro h
  obtain ⟨rfl, _⟩ := List.cons_prefix_cons.1 h.front
  have hmissing : sectionAt? [j] d = none := h.missing
  rw [sectionAt?_cons_of_section? hs] at hmissing
  cases hmissing

theorem breaks_cons_cons {s : Document} (hs : d.section? k = some s) {ks : List Text}
    {j k' : Text} : Breaks d (k :: ks) (k' :: q) j ↔ k' = k ∧ Breaks s ks q j := by
  constructor
  · intro h
    obtain ⟨rfl, hfront⟩ := List.cons_prefix_cons.1 h.front
    refine ⟨rfl, hfront, fun he => h.short (congrArg (k' :: ·) he), ?_, fun p hp hne => ?_⟩
    · rw [← sectionAt?_cons_of_section? hs]
      exact h.missing
    · rw [← sectionAt?_cons_of_section? hs]
      exact h.shortest (k' :: p) (List.cons_prefix_cons.2 ⟨rfl, hp⟩)
        fun he => hne (List.cons.inj he).2
  · rintro ⟨rfl, h⟩
    refine ⟨List.cons_prefix_cons.2 ⟨rfl, h.front⟩, fun he => h.short (List.cons.inj he).2, ?_,
      fun p hp hne => ?_⟩
    · rw [List.cons_append, sectionAt?_cons_of_section? hs]
      exact h.missing
    · cases p with
      | nil => rfl
      | cons k₁ p =>
        obtain ⟨rfl, hrest⟩ := List.cons_prefix_cons.1 hp
        rw [sectionAt?_cons_of_section? hs]
        exact h.shortest p hrest fun he => hne (congrArg (k₁ :: ·) he)

/-- On a longer path setting fails at the first key, or in the section under it. -/
theorem setAt_cons_eq_error {ks : List Text} (hks : ks ≠ []) :
    setAt v (k :: ks) d = .error e ↔
      d.section? k = none ∧ e = .noSection k ∨
        ∃ s, d.section? k = some s ∧ setAt v ks s = .error e := by
  obtain ⟨k', ks, rfl⟩ := List.exists_cons_of_ne_nil hks
  rw [setAt]
  · cases hs : d.section? k with
    | none => simp [eq_comm]
    | some s => cases hset : setAt v (k' :: ks) s <;> simp [hset]
  · exact hks

/-- **Setting fails where the way breaks off**, and names the key there. -/
theorem setAt_eq_error_iff :
    setAt v path d = .error e ↔ ∃ q k, Breaks d path q k ∧ e = .noSection k := by
  induction path generalizing d with
  | nil =>
    refine iff_of_false nofun ?_
    rintro ⟨q, k, h, _⟩
    exact absurd (List.prefix_nil.1 h.front) (by simp)
  | cons k ks ih =>
    by_cases hks : ks = []
    · subst hks
      refine iff_of_false nofun ?_
      rintro ⟨q, j, h, _⟩
      have hlen := h.front.length_le
      have hq : q = [] := List.eq_nil_of_length_eq_zero (by simpa using hlen)
      subst hq
      exact h.short (congrArg (· :: []) (List.cons_prefix_cons.1 h.front).1)
    · rw [setAt_cons_eq_error hks]
      cases hs : d.section? k with
      | none => simp [breaks_cons_of_none hs hks]
      | some s =>
        simp only [reduceCtorEq, false_and, false_or, Option.some.injEq, exists_eq_left', ih]
        constructor
        · rintro ⟨q, j, h, rfl⟩
          exact ⟨k :: q, j, (breaks_cons_cons hs).2 ⟨rfl, h⟩, rfl⟩
        · rintro ⟨q, j, h, rfl⟩
          cases q with
          | nil => exact absurd h (not_breaks_nil hs)
          | cons k' q => exact ⟨q, j, ((breaks_cons_cons hs).1 h).2, rfl⟩

theorem isSome_sectionAt?_of_prefix (h : p <+: q) (hq : (sectionAt? q d).isSome) :
    (sectionAt? p d).isSome := by
  induction p generalizing d q with
  | nil => rfl
  | cons k p ih =>
    obtain ⟨q, rfl, hrest⟩ := List.cons_prefix_iff.1 h
    obtain ⟨s', hs'⟩ := Option.isSome_iff_exists.1 hq
    obtain ⟨s, hs, hq⟩ := Option.bind_eq_some_iff.1 hs'
    rw [sectionAt?_cons_of_section? hs]
    exact ih hrest (by rw [hq, Option.isSome_some])

/-- If some beginning does not lead to a section there is a shortest one. -/
theorem exists_breaks_iff : (∃ q k, Breaks d path q k) ↔
    ∃ p ≠ [], p <+: path ∧ p ≠ path ∧ sectionAt? p d = none := by
  constructor
  · rintro ⟨q, k, h⟩
    exact ⟨q ++ [k], by simp, h.front, h.short, h.missing⟩
  · rintro ⟨p, hne, hp, hshort, hmissing⟩
    induction p using List.reverseRecOn with
    | nil => exact absurd rfl hne
    | append_singleton p k ih =>
      cases hfound : sectionAt? p d with
      | some s =>
        refine ⟨p, k, hp, hshort, hmissing, fun p' hp' hne' => ?_⟩
        have hbefore : p' <+: p := (List.prefix_concat_iff.1 hp').resolve_left hne'
        exact isSome_sectionAt?_of_prefix hbefore (by rw [hfound, Option.isSome_some])
      | none =>
        have hpre : p <+: p ++ [k] := List.prefix_append p [k]
        refine ih ?_ (hpre.trans hp) ?_ hfound
        · rintro rfl
          cases hfound
        · rintro rfl
          exact hshort (hpre.eq_of_length_le hp.length_le).symm

/-! ### In place -/

/-- Setting a value as a change in place.  The section under the first key is
changed, and what has become of it is put back under the key, whether the change
came to its end or not. -/
def put (value : Value) : List Text → EStateM Error Document Unit
  | [], d => .ok () d
  | [k], d => .ok () (d.insert k value)
  | k :: ks, d =>
    match d.section? k with
    | none => .error (.noSection k) d
    | some s =>
      match put value ks s with
      | .ok _ s' => .ok () (d.insert k (.nested s'))
      | .error e s' => .error e (d.insert k (.nested s'))

/-- **In place it is the same**, and nothing has changed where it fails. -/
theorem put_eq : (put v path).run d = match setAt v path d with
    | .ok d' => .ok () d'
    | .error e => .error e d := by
  rw [EStateM.run]
  induction path generalizing d with
  | nil => rfl
  | cons k ks ih =>
    cases ks with
    | nil => rfl
    | cons k' ks =>
      rw [put, setAt]
      · cases hs : d.section? k with
        | none => rfl
        | some s =>
          simp only [ih]
          cases setAt v (k' :: ks) s with
          | ok s' => rfl
          | error e =>
            have hsame : d.insert k (.nested s) = d := insert_eq_of_get? (get?_of_section? hs)
            simp only [hsame]
      all_goals simp

/-! ### What has been set -/

/-- A document with a value set at a path. -/
structure SetTo (path : List Text) (v : Value) (d d' : Document) : Prop where
  /-- The value stands at the path. -/
  value : valueAt? path d' = some v
  /-- Paths that lead neither to it nor on from it have what they had. -/
  others {p : List Text} : ¬ p <+: path → ¬ path <+: p → valueAt? p d' = valueAt? p d
  /-- Sections that are not at the path or below it are there, with their keys in
  order and perhaps new ones behind them. -/
  sections {p : List Text} : ¬ path <+: p → Keeps (· <+: ·) d d' p

theorem valueAt?_setAt (hpath : path ≠ []) (h : setAt v path d = .ok d') :
    valueAt? path d' = some v := by
  induction path generalizing d d' with
  | nil => exact absurd rfl hpath
  | cons k ks ih =>
    by_cases hks : ks = []
    · subst hks
      cases h
      exact (get?_insert d k k v).trans (if_pos rfl)
    · obtain ⟨s, s', hs, hset, rfl⟩ := (setAt_cons_eq_ok hks).1 h
      rw [valueAt?_cons hks, sectionOrEmpty_insert]
      exact ih hks hset

theorem valueAt?_setAt_of_not_prefix (h : setAt v path d = .ok d') (hto : ¬ p <+: path)
    (hon : ¬ path <+: p) : valueAt? p d' = valueAt? p d := by
  induction path generalizing d d' p with
  | nil => exact absurd List.nil_prefix hon
  | cons k ks ih =>
    cases p with
    | nil => exact absurd List.nil_prefix hto
    | cons k' p =>
      by_cases hks : ks = []
      · subst hks
        cases h
        have hne : k ≠ k' := by
          rintro rfl
          exact hon (List.prefix_append [k] p)
        exact valueAt?_insert_of_ne hne p d v
      · obtain ⟨s, s', hs, hset, rfl⟩ := (setAt_cons_eq_ok hks).1 h
        by_cases hk : k = k'
        · subst hk
          rw [List.prefix_cons_inj] at hto hon
          have hp : p ≠ [] := by
            rintro rfl
            exact hto List.nil_prefix
          rw [valueAt?_cons hp, valueAt?_cons hp, sectionOrEmpty_insert,
            sectionOrEmpty_of_section? hs]
          exact ih hset hto hon
        · exact valueAt?_insert_of_ne hk p d _

theorem setTo_of_setAt (hpath : path ≠ []) (h : setAt v path d = .ok d') :
    SetTo path v d d' where
  value := valueAt?_setAt hpath h
  others := valueAt?_setAt_of_not_prefix h
  sections := keeps_setAt h

/-! ### Reading back -/

theorem valueAt?_withSearchOrder (order : List Text) (p : List Text) (d : Document) :
    valueAt? p (d.withSearchOrder order) = valueAt? p d := by
  match p with
  | [] => rfl
  | [_] => rfl
  | _ :: _ :: _ => rfl

/-- A dotted key in lower case is looked up along its path. -/
theorem search_of_valueAt? {key : Text} (hdot : '.' ∈ key) (hlower : Text.lowerCase key = key)
    (h : valueAt? (segments key) d = some v) (s : Scope) (required : Bool) :
    d.search s required key = .ok (some v) := by
  have hfind : d.find? s key = some v := by
    rw [find?]
    simp only [hlower, if_pos hdot, h]
  rw [search, hfind]

/-- **Setting at a dotted key is all or nothing, and is read back.**  It fails if
and only if some beginning of the path does not lead to a section, with the key
at which the shortest one ends, and the document in place is then as it was.
Otherwise the value stands there and all else is as it was; and a dotted key in
lower case finds it, whatever the look-up consults and in whatever order. -/
theorem set_outcome (d : Document) (key : Text) (v : Value) :
    ((∃ e, d.set key v = .error e) ↔
      ∃ p ≠ [], p <+: segments key ∧ p ≠ segments key ∧ sectionAt? p d = none) ∧
    (∀ e, d.set key v = .error e →
      (∃ q k, Breaks d (segments key) q k ∧ e = .noSection k) ∧
      (put v (segments key)).run d = .error e d) ∧
    ∀ d', d.set key v = .ok d' →
      (put v (segments key)).run d = .ok () d' ∧ SetTo (segments key) v d d' ∧
      ('.' ∈ key → Text.lowerCase key = key → ∀ s required order,
        (d'.withSearchOrder order).search s required key = .ok (some v)) := by
  refine ⟨?_, fun e he => ⟨setAt_eq_error_iff.1 he, ?_⟩, fun d' hd' => ⟨?_, ?_, ?_⟩⟩
  · rw [← exists_breaks_iff]
    constructor
    · rintro ⟨e, he⟩
      obtain ⟨q, k, h, _⟩ := setAt_eq_error_iff.1 he
      exact ⟨q, k, h⟩
    · rintro ⟨q, k, h⟩
      exact ⟨.noSection k, setAt_eq_error_iff.2 ⟨q, k, h, rfl⟩⟩
  · rw [set] at he
    rw [put_eq, he]
  · rw [set] at hd'
    rw [put_eq, hd']
  · exact setTo_of_setAt (List.splitOn_ne_nil _ _) hd'
  · intro hdot hlower s required order
    refine search_of_valueAt? hdot hlower ?_ s required
    rw [valueAt?_withSearchOrder]
    exact valueAt?_setAt (List.splitOn_ne_nil _ _) hd'

/-- A new key two sections down, where current values and a section of the search
order have the key as well; and a way that ends at a scalar. -/
theorem set_outcome_nested :
    let d := (ofList [
      ("current".toList, .nested (ofList [("curr_a".toList, .scalar "b".toList),
        ("a.b.y".toList, .scalar "0".toList)])),
      ("a".toList, .nested (ofList [
        ("b".toList, .nested (ofList [("x".toList, .scalar "1".toList)])),
        ("c".toList, .scalar "2".toList)]))]).withSearchOrder ["a".toList]
    let d' := (ofList [
      ("current".toList, .nested (ofList [("curr_a".toList, .scalar "b".toList),
        ("a.b.y".toList, .scalar "0".toList)])),
      ("a".toList, .nested (ofList [
        ("b".toList, .nested (ofList [("x".toList, .scalar "1".toList),
          ("y".toList, .scalar "3".toList)])),
        ("c".toList, .scalar "2".toList)]))]).withSearchOrder ["a".toList]
    d.set "a.b.y".toList (.scalar "3".toList) = .ok d' ∧
      SetTo ["a".toList, "b".toList, "y".toList] (.scalar "3".toList) d d' ∧
      d'.search { current := some (ofList [("a.b.y".toList, .scalar "4".toList)]) } true
        "a.b.y".toList = .ok (some (.scalar "3".toList)) ∧
      d.set "a.c..z".toList (.scalar "3".toList) = .error (.noSection "c".toList) ∧
      (put (.scalar "3".toList) ["a".toList, "c".toList, [], "z".toList]).run d =
        .error (.noSection "c".toList) d := by
  intro d d'
  obtain ⟨_, _, hok⟩ := set_outcome d "a.b.y".toList (.scalar "3".toList)
  obtain ⟨_, hfails, _⟩ := set_outcome d "a.c..z".toList (.scalar "3".toList)
  have hset : d.set "a.b.y".toList (.scalar "3".toList) = .ok d' := by decide
  have hfail : d.set "a.c..z".toList (.scalar "3".toList) = .error (.noSection "c".toList) := by
    decide
  obtain ⟨_, hset', hfound⟩ := hok d' hset
  exact ⟨hset, hset', hfound (by decide) (by decide +kernel) _ true ["a".toList], hfail,
    (hfails _ hfail).2⟩

end Wcl.Document
