import Mathlib.Data.Set.Card
import Wcl.Proofs.Document.Layers
import Wcl.Proofs.Text.LowerCase
import Wcl.Template.Context

/-!
# The names under which something can be found

A look-up compares a name in lower case with the keys, or with the path that it
is if it has dots, so that what is found is found under a spelling of a key at
some depth or of a path (`Context.mem_spellings`).

There are finitely many spellings, since lower case makes no text shorter, and
`Context.depthBound` is above their number (`Context.ncard_spellings_lt`).  That
number counts the texts that are no longer than the longest of them: read as
numbers with the characters as digits they all differ.
-/

namespace Wcl

/-! ### Keys and paths -/

/-- The keys at every depth. -/
def Entries.allKeys : Entries → List Text
  | .nil => []
  | .scalar k _ rest => k :: rest.allKeys
  | .nested k _ inner rest => k :: (inner.allKeys ++ rest.allKeys)

/-- The paths to everything at every depth, written with dots. -/
def Entries.dottedPaths : Entries → List Text
  | .nil => []
  | .scalar k _ rest => k :: rest.dottedPaths
  | .nested k _ inner rest =>
    k :: (inner.dottedPaths.map (fun path => k ++ '.' :: path) ++ rest.dottedPaths)

namespace Entries

variable {e : Entries} {k : Text} {v : Value} {s : Document}

theorem mem_allKeys_of_get? (h : e.get? k = some v) : k ∈ e.allKeys := by
  induction e with
  | nil => cases h
  | scalar k' t rest ih =>
    by_cases hk : k' = k
    · exact hk ▸ List.mem_cons_self ..
    · rw [get?, if_neg hk] at h
      exact List.mem_cons_of_mem _ (ih h)
  | nested k' o inner rest _ ih =>
    by_cases hk : k' = k
    · exact hk ▸ List.mem_cons_self ..
    · rw [get?, if_neg hk] at h
      exact List.mem_cons_of_mem _ (List.mem_append_right _ (ih h))

theorem allKeys_of_get? (h : e.get? k = some (.nested s)) : s.entries.allKeys ⊆ e.allKeys := by
  induction e with
  | nil => cases h
  | scalar k' t rest ih =>
    by_cases hk : k' = k
    · rw [get?, if_pos hk] at h
      cases h
    · rw [get?, if_neg hk] at h
      exact List.subset_cons_of_subset _ (ih h)
  | nested k' o inner rest _ ih =>
    by_cases hk : k' = k
    · rw [get?, if_pos hk] at h
      cases h
      exact List.subset_cons_of_subset _ (List.subset_append_left _ _)
    · rw [get?, if_neg hk] at h
      exact List.subset_cons_of_subset _ (List.subset_append_of_subset_right _ (ih h))

theorem mem_dottedPaths_of_get? (h : e.get? k = some v) : k ∈ e.dottedPaths := by
  induction e with
  | nil => cases h
  | scalar k' t rest ih =>
    by_cases hk : k' = k
    · exact hk ▸ List.mem_cons_self ..
    · rw [get?, if_neg hk] at h
      exact List.mem_cons_of_mem _ (ih h)
  | nested k' o inner rest _ ih =>
    by_cases hk : k' = k
    · exact hk ▸ List.mem_cons_self ..
    · rw [get?, if_neg hk] at h
      exact List.mem_cons_of_mem _ (List.mem_append_right _ (ih h))

/-- A path goes on into a section. -/
theorem mem_dottedPaths_of_section (h : e.get? k = some (.nested s)) {path : Text}
    (hpath : path ∈ s.entries.dottedPaths) : k ++ '.' :: path ∈ e.dottedPaths := by
  induction e with
  | nil => cases h
  | scalar k' t rest ih =>
    by_cases hk : k' = k
    · rw [get?, if_pos hk] at h
      cases h
    · rw [get?, if_neg hk] at h
      exact List.mem_cons_of_mem _ (ih h)
  | nested k' o inner rest _ ih =>
    by_cases hk : k' = k
    · rw [get?, if_pos hk] at h
      cases h
      subst hk
      exact List.mem_cons_of_mem _ (List.mem_append_left _ (List.mem_map_of_mem hpath))
    · rw [get?, if_neg hk] at h
      exact List.mem_cons_of_mem _ (List.mem_append_right _ (ih h))

theorem Leads.mem_dottedPaths {path : List Text} (h : e.Leads path v) :
    ['.'].intercalate path ∈ e.dottedPaths := by
  induction h with
  | here h =>
    rw [List.intercalate_singleton]
    exact mem_dottedPaths_of_get? h
  | @inside e k s ks v h hs ih =>
    cases ks with
    | nil => cases hs
    | cons k' ks => exact mem_dottedPaths_of_section h ih

theorem length_le_of_mem_allKeys (h : k ∈ e.allKeys) : k.length ≤ e.keyWeight := by
  induction e with
  | nil => exact absurd h List.not_mem_nil
  | scalar k' t rest ih =>
    rw [keyWeight]
    rcases List.mem_cons.1 h with rfl | h
    · omega
    · have hrest := ih h
      omega
  | nested k' o inner rest ih ih' =>
    rw [keyWeight]
    rcases List.mem_cons.1 h with rfl | h
    · omega
    · rcases List.mem_append.1 h with h | h
      · have hinner := ih h
        omega
      · have hrest := ih' h
        omega

theorem length_le_of_mem_dottedPaths (h : k ∈ e.dottedPaths) : k.length ≤ e.keyWeight := by
  induction e generalizing k with
  | nil => exact absurd h List.not_mem_nil
  | scalar k' t rest ih =>
    rw [keyWeight]
    rcases List.mem_cons.1 h with rfl | h
    · omega
    · have hrest := ih h
      omega
  | nested k' o inner rest ih ih' =>
    rw [keyWeight]
    rcases List.mem_cons.1 h with rfl | h
    · omega
    · rcases List.mem_append.1 h with h | h
      · obtain ⟨path, hpath, rfl⟩ := List.mem_map.1 h
        have hinner := ih hpath
        rw [List.length_append, List.length_cons]
        omega
      · have hrest := ih' h
        omega

end Entries

/-! ### What a look-up compares with -/

namespace Document

variable {d s' : Document} {s : Scope} {key : Text} {v : Value}

/-- The keys and paths that a look-up can find something under. -/
def names (d : Document) (s : Scope) : List Text :=
  d.entries.allKeys ++ (d.entries.dottedPaths ++
    ((s.current.getD .empty).entries.allKeys ++ (s.object.getD .empty).entries.allKeys))

theorem mem_allKeys_of_get? (h : d.get? key = some v) : key ∈ d.entries.allKeys :=
  Entries.mem_allKeys_of_get? h

theorem allKeys_of_section? (h : d.section? key = some s') :
    s'.entries.allKeys ⊆ d.entries.allKeys :=
  Entries.allKeys_of_get? (get?_of_section? h)

theorem mem_names_of_get? (h : d.get? key = some v) : key ∈ d.names s :=
  List.mem_append_left _ (mem_allKeys_of_get? h)

theorem mem_names_of_section? {k : Text} (hs : d.section? k = some s')
    (h : s'.get? key = some v) : key ∈ d.names s :=
  List.mem_append_left _ (allKeys_of_section? hs (mem_allKeys_of_get? h))

theorem mem_names_of_current (hs : s.current = some s') (h : s'.get? key = some v) :
    key ∈ d.names s := by
  refine List.mem_append_right _ (List.mem_append_right _ (List.mem_append_left _ ?_))
  rw [hs]
  exact mem_allKeys_of_get? h

theorem mem_names_of_object (hs : s.object = some s') (h : s'.get? key = some v) :
    key ∈ d.names s := by
  refine List.mem_append_right _ (List.mem_append_right _ (List.mem_append_right _ ?_))
  rw [hs]
  exact mem_allKeys_of_get? h

theorem mem_names_of_findScoped? (h : d.findScoped? s key = some v) : key ∈ d.names s := by
  rcases Option.or_eq_some_iff.1 h with h | ⟨_, h⟩
  · rcases Option.or_eq_some_iff.1 h with h | ⟨_, h⟩
    · obtain ⟨current, hcurrent, h⟩ := Option.bind_eq_some_iff.1 h
      exact mem_names_of_current hcurrent h
    · obtain ⟨current, hcurrent, h⟩ := Option.bind_eq_some_iff.1 h
      exact mem_names_of_section? hcurrent h
  rcases Option.or_eq_some_iff.1 h with h | ⟨_, h⟩
  · obtain ⟨object, hobject, h⟩ := Option.bind_eq_some_iff.1 h
    exact mem_names_of_object hobject h
  rcases Option.or_eq_some_iff.1 h with h | ⟨_, h⟩
  · obtain ⟨name, _, h⟩ := List.exists_of_findSome?_eq_some h
    obtain ⟨part, hpart, h⟩ := Option.bind_eq_some_iff.1 h
    obtain ⟨_, _, hselected⟩ := Option.bind_eq_some_iff.1 hpart
    obtain ⟨outer, houter, hpart⟩ := Option.bind_eq_some_iff.1 hselected
    exact List.mem_append_left _
      (allKeys_of_section? houter (allKeys_of_section? hpart (mem_allKeys_of_get? h)))
  · exact mem_names_of_get? h

/-- Something is found only under a spelling of a key or of a path. -/
theorem mem_names_of_find? (h : d.find? s key = some v) : Text.lowerCase key ∈ d.names s := by
  unfold find? at h
  dsimp only at h
  split at h
  · obtain ⟨_, _, hpath⟩ := segments_eq_iff.1 (Eq.refl (segments (Text.lowerCase key)))
    have hmem := (valueAt?_eq_some_iff.1 h).mem_dottedPaths
    rw [hpath] at hmem
    exact List.mem_append_right _ (List.mem_append_left _ hmem)
  · exact mem_names_of_findScoped? h

/-- A character that lower case leaves alone is in no name under which something is
found if it is in no key and no path. -/
theorem notMem_of_find? {ch : Char} (hch : Text.Lowered ch) (hnames : ∀ n ∈ d.names s, ch ∉ n)
    (h : d.find? s key = some v) : ch ∉ key :=
  fun hm => hnames _ (mem_names_of_find? h) (Text.mem_lowerFrom hch hm)

end Document

/-! ### How many spellings there are -/

theorem Text.length_le_lowerFrom (before t : Text) : t.length ≤ (lowerFrom before t).length := by
  induction t generalizing before with
  | nil => exact Nat.zero_le _
  | cons c r ih =>
    obtain ⟨front, hfront, hne, _⟩ := lowerFrom_cons before c r
    have hpos := List.length_pos_iff.2 hne
    have hrest := ih (c :: before)
    rw [hfront, List.length_append, List.length_cons]
    omega

namespace Text

/-- A text as a number, its characters as digits from one on. -/
def toNumber (base : Nat) (t : Text) : Nat :=
  t.foldr (fun c n => c.toNat + 1 + base * n) 0

theorem toNumber_nil (base : Nat) : toNumber base [] = 0 := rfl

theorem toNumber_cons (base : Nat) (c : Char) (r : Text) :
    toNumber base (c :: r) = c.toNat + 1 + base * toNumber base r := rfl

theorem toNat_lt (c : Char) : c.toNat < 0x110000 := by
  rcases c.valid with h | ⟨_, h⟩
  · exact Nat.lt_trans h (by decide)
  · exact h

section Numbers

variable {base : Nat} (hdigit : ∀ c : Char, c.toNat < base)

include hdigit

theorem toNumber_add_two_le (hbase : 2 ≤ base) (t : Text) :
    toNumber base t + 2 ≤ base ^ (t.length + 1) := by
  induction t with
  | nil => simpa [toNumber_nil] using hbase
  | cons c r ih =>
    have hc := hdigit c
    have hmul : base * (toNumber base r + 2) ≤ base * base ^ (r.length + 1) :=
      Nat.mul_le_mul_left base ih
    rw [Nat.mul_add] at hmul
    rw [toNumber_cons, List.length_cons, Nat.pow_succ']
    omega

theorem toNumber_injective : Function.Injective (toNumber base) := by
  intro t
  induction t with
  | nil =>
    rintro (_ | ⟨c, r⟩) h
    · rfl
    · rw [toNumber_cons, toNumber_nil] at h
      omega
  | cons c r ih =>
    rintro (_ | ⟨c', r'⟩) h
    · rw [toNumber_cons, toNumber_nil] at h
      omega
    · rw [toNumber_cons, toNumber_cons] at h
      have hsum : c.toNat + base * toNumber base r = c'.toNat + base * toNumber base r' := by
        omega
      have hdigits : c.toNat = c'.toNat := by
        have hmod := congrArg (· % base) hsum
        simpa [Nat.add_mul_mod_self_left, Nat.mod_eq_of_lt (hdigit _)] using hmod
      have hpos : 0 < base := Nat.zero_lt_of_lt (hdigit c)
      rw [hdigits] at hsum
      have hrest := Nat.eq_of_mul_eq_mul_left hpos (Nat.add_left_cancel hsum)
      rw [Char.toNat_inj.1 hdigits, ih hrest]

end Numbers

/-- There are fewer texts of bounded length than numbers with so many digits. -/
theorem finite_of_length_le {names : Set Text} {bound : Nat}
    (h : ∀ t ∈ names, t.length ≤ bound) :
    names.Finite ∧ names.ncard < 0x110000 ^ (bound + 1) := by
  -- The base stays a variable: its power is not to be computed.
  generalize hbase : 0x110000 = base
  have hdigit : ∀ c : Char, c.toNat < base := fun c => hbase ▸ toNat_lt c
  have htwo : 2 ≤ base := hbase ▸ by decide
  have hpos : 0 < base := Nat.lt_of_lt_of_le (by decide) htwo
  let numbers := Finset.range (base ^ (bound + 1) - 1)
  have hmaps : Set.MapsTo (toNumber base) names numbers := by
    intro t ht
    have hnumber := toNumber_add_two_le hdigit htwo t
    have hpow : base ^ (t.length + 1) ≤ base ^ (bound + 1) :=
      Nat.pow_le_pow_right hpos (Nat.succ_le_succ (h t ht))
    rw [Finset.mem_coe, Finset.mem_range]
    omega
  have hinj : Set.InjOn (toNumber base) names := (toNumber_injective hdigit).injOn
  refine ⟨.of_injOn hmaps hinj numbers.finite_toSet, ?_⟩
  have hle := Set.ncard_le_ncard_of_injOn (toNumber base) hmaps hinj numbers.finite_toSet
  rw [Set.ncard_coe_finset, Finset.card_range] at hle
  have hpow : 0 < base ^ (bound + 1) := Nat.pow_pos hpos
  omega

end Text

namespace Context

variable {c : Context} {name : Text} {v : Value}

/-- The spellings of the keys and paths under which something can be found. -/
def spellings (c : Context) : Set Text :=
  {name | Text.lowerCase name ∈ c.document.names c.scope}

theorem mem_spellings (h : c.document.find? c.scope name = some v) : name ∈ c.spellings :=
  Document.mem_names_of_find? h

theorem length_le_nameBound (h : name ∈ c.spellings) : name.length ≤ c.nameBound := by
  refine Nat.le_trans (Text.length_le_lowerFrom [] name) ?_
  change (Text.lowerCase name).length ≤ _
  rw [nameBound]
  rcases List.mem_append.1 h with h | h
  · have hlen := Entries.length_le_of_mem_allKeys h
    omega
  rcases List.mem_append.1 h with h | h
  · have hlen := Entries.length_le_of_mem_dottedPaths h
    omega
  rcases List.mem_append.1 h with h | h
  · have hlen := Entries.length_le_of_mem_allKeys h
    omega
  · have hlen := Entries.length_le_of_mem_allKeys h
    omega

theorem finite_spellings (c : Context) : c.spellings.Finite :=
  (Text.finite_of_length_le fun _ h => length_le_nameBound h).1

theorem ncard_spellings_lt (c : Context) : c.spellings.ncard < c.depthBound :=
  (Text.finite_of_length_le fun _ h => length_le_nameBound h).2

end Context

end Wcl
