import Wcl.Text.Basic

/-!
# Documents

A document is a list of entries in order, each a scalar or a section of its
own, and a search order: the sections that a look-up goes through.  Entries are
one inductive type, not a list of pairs, so that a function on documents is one
structural recursion.

Two views say what the operations do: `get?`, the value under a key, and
`keys`, the keys in order.  `get?_insert` and `keys_insert` say that inserting
sets one key, in its place if it is there and at the end if it is not;
`get?_remove_of_ne` that removing leaves the other keys alone.
-/

namespace Wcl

/-- The entries of a section, in order: scalars, and nested sections with the
search order that each has. -/
inductive Entries
  | nil
  | scalar (key text : Text) (rest : Entries)
  | nested (key : Text) (order : List Text) (inner rest : Entries)
  deriving DecidableEq, Repr, Inhabited

/-- A document, or a section inside one. -/
structure Document where
  entries : Entries := .nil
  searchOrder : List Text := []
  deriving DecidableEq, Repr, Inhabited

/-- What stands under a key. -/
inductive Value
  | scalar (text : Text)
  | nested (doc : Document)
  deriving DecidableEq, Repr, Inhabited

namespace Value

/-- The text of a scalar. -/
def text? : Value → Option Text
  | .scalar t => some t
  | .nested _ => none

/-- The document of a section. -/
def section? : Value → Option Document
  | .scalar _ => none
  | .nested d => some d

/-- Whether a value is a section. -/
def isSection : Value → Bool
  | .scalar _ => false
  | .nested _ => true

end Value

namespace Entries

/-- One more entry at the front. -/
def cons (key : Text) (value : Value) (rest : Entries) : Entries :=
  match value with
  | .scalar t => .scalar key t rest
  | .nested d => .nested key d.searchOrder d.entries rest

/-- The entries as pairs. -/
def toList : Entries → List (Text × Value)
  | .nil => []
  | .scalar k t rest => (k, .scalar t) :: rest.toList
  | .nested k o inner rest => (k, .nested ⟨inner, o⟩) :: rest.toList

/-- The keys, in order. -/
def keys : Entries → List Text
  | .nil => []
  | .scalar k _ rest => k :: rest.keys
  | .nested k _ _ rest => k :: rest.keys

/-- The value under a key. -/
def get? (key : Text) : Entries → Option Value
  | .nil => none
  | .scalar k t rest => if k = key then some (.scalar t) else rest.get? key
  | .nested k o inner rest => if k = key then some (.nested ⟨inner, o⟩) else rest.get? key

/-- Puts a value under a key: in the place of the one that is there, or else at
the end. -/
def insert (key : Text) (value : Value) : Entries → Entries
  | .nil => cons key value .nil
  | .scalar k t rest =>
    if k = key then cons key value rest else .scalar k t (rest.insert key value)
  | .nested k o inner rest =>
    if k = key then cons key value rest else .nested k o inner (rest.insert key value)

/-- Takes the entry under a key out. -/
def remove (key : Text) : Entries → Entries
  | .nil => .nil
  | .scalar k t rest => if k = key then rest else .scalar k t (rest.remove key)
  | .nested k o inner rest => if k = key then rest else .nested k o inner (rest.remove key)

@[simp] theorem toList_cons (k : Text) (v : Value) (rest : Entries) :
    (cons k v rest).toList = (k, v) :: rest.toList := by
  cases v <;> rfl

@[simp] theorem keys_cons (k : Text) (v : Value) (rest : Entries) :
    (cons k v rest).keys = k :: rest.keys := by
  cases v <;> rfl

@[simp] theorem get?_cons (k key : Text) (v : Value) (rest : Entries) :
    (cons k v rest).get? key = if k = key then some v else rest.get? key := by
  cases v <;> rfl

theorem keys_eq_map (e : Entries) : e.keys = e.toList.map Prod.fst := by
  induction e with
  | nil => rfl
  | scalar k t rest ih => simp [keys, toList, ih]
  | nested k o inner rest _ ih => simp [keys, toList, ih]

theorem get?_eq_none_iff {key : Text} {e : Entries} : e.get? key = none ↔ key ∉ e.keys := by
  induction e with
  | nil => simp [get?, keys]
  | scalar k t rest ih =>
    by_cases h : k = key
    · simp [get?, keys, h]
    · simp [get?, keys, h, Ne.symm h, ih]
  | nested k o inner rest _ ih =>
    by_cases h : k = key
    · simp [get?, keys, h]
    · simp [get?, keys, h, Ne.symm h, ih]

theorem get?_insert (key key' : Text) (v : Value) (e : Entries) :
    (e.insert key v).get? key' = if key = key' then some v else e.get? key' := by
  induction e with
  | nil => simp [insert, get?]
  | scalar k t rest ih =>
    by_cases h : k = key
    · subst h; by_cases h' : k = key' <;> simp [insert, get?, h']
    · by_cases h' : k = key'
      · subst h'; simp [insert, get?, h, Ne.symm h]
      · simp [insert, get?, h, h', ih]
  | nested k o inner rest _ ih =>
    by_cases h : k = key
    · subst h; by_cases h' : k = key' <;> simp [insert, get?, h']
    · by_cases h' : k = key'
      · subst h'; simp [insert, get?, h, Ne.symm h]
      · simp [insert, get?, h, h', ih]

theorem keys_insert (key : Text) (v : Value) (e : Entries) :
    (e.insert key v).keys = if key ∈ e.keys then e.keys else e.keys ++ [key] := by
  induction e with
  | nil => simp [insert, keys]
  | scalar k t rest ih =>
    by_cases h : k = key
    · simp [insert, keys, h]
    · by_cases hm : key ∈ rest.keys <;> simp [insert, keys, h, Ne.symm h, ih, hm]
  | nested k o inner rest _ ih =>
    by_cases h : k = key
    · simp [insert, keys, h]
    · by_cases hm : key ∈ rest.keys <;> simp [insert, keys, h, Ne.symm h, ih, hm]

theorem get?_remove_of_ne {key key' : Text} (h : key ≠ key') (e : Entries) :
    (e.remove key).get? key' = e.get? key' := by
  induction e with
  | nil => rfl
  | scalar k t rest ih =>
    by_cases hk : k = key
    · subst hk; simp [remove, get?, h]
    · simp [remove, get?, hk, ih]
  | nested k o inner rest _ ih =>
    by_cases hk : k = key
    · subst hk; simp [remove, get?, h]
    · simp [remove, get?, hk, ih]

theorem keys_remove (key : Text) (e : Entries) : (e.remove key).keys = e.keys.erase key := by
  induction e with
  | nil => rfl
  | scalar k t rest ih => by_cases h : k = key <;> simp [remove, keys, h, ih]
  | nested k o inner rest _ ih =>
    by_cases h : k = key <;> simp [remove, keys, h, ih]

end Entries

namespace Document

/-- The document without entries and without a search order. -/
def empty : Document := {}

/-- The entries as pairs, in order. -/
def toList (d : Document) : List (Text × Value) := d.entries.toList

/-- The keys, in order. -/
def keys (d : Document) : List Text := d.entries.keys

/-- The number of entries. -/
def size (d : Document) : Nat := d.keys.length

/-- The value under exactly this key. -/
def get? (d : Document) (key : Text) : Option Value := d.entries.get? key

/-- Whether there is an entry under exactly this key. -/
def hasKey (d : Document) (key : Text) : Bool := (d.get? key).isSome

/-- The section under a key. -/
def section? (d : Document) (key : Text) : Option Document := (d.get? key).bind Value.section?

/-- The text of the scalar under a key. -/
def text? (d : Document) (key : Text) : Option Text := (d.get? key).bind Value.text?

/-- Puts a value under a key: in the place of the one that is there, or else at
the end. -/
def insert (d : Document) (key : Text) (value : Value) : Document :=
  { d with entries := d.entries.insert key value }

/-- Takes the entry under a key out. -/
def remove (d : Document) (key : Text) : Document :=
  { d with entries := d.entries.remove key }

/-- The same entries under another search order. -/
def withSearchOrder (d : Document) (order : List Text) : Document :=
  { d with searchOrder := order }

/-- The document that inserting the pairs one after another makes. -/
def ofList (pairs : List (Text × Value)) : Document :=
  pairs.foldl (fun d p => d.insert p.1 p.2) empty

/-- The key of the section with the current values. -/
def currentKey : Text := "current".toList

/-- The section with the current values. -/
def current? (d : Document) : Option Document := d.section? currentKey

@[simp] theorem get?_insert (d : Document) (key key' : Text) (v : Value) :
    (d.insert key v).get? key' = if key = key' then some v else d.get? key' :=
  Entries.get?_insert key key' v d.entries

theorem keys_insert (d : Document) (key : Text) (v : Value) :
    (d.insert key v).keys = if key ∈ d.keys then d.keys else d.keys ++ [key] :=
  Entries.keys_insert key v d.entries

@[simp] theorem searchOrder_insert (d : Document) (key : Text) (v : Value) :
    (d.insert key v).searchOrder = d.searchOrder := rfl

end Document

end Wcl
