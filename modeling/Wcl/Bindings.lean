import Wcl.Text.Basic

/-!
# Bindings

Names with one value each, kept in the order of the names.  `get?_insert` says
that inserting sets one name and leaves the others alone.
-/

namespace Wcl

/-- Names with their values, in the order of the names. -/
abbrev Bindings := List (Text × Text)

namespace Bindings

/-- The value of a name. -/
def get? (name : Text) : Bindings → Option Text
  | [] => none
  | (n, v) :: rest => if n = name then some v else get? name rest

/-- Gives a name a value. -/
def insert (name value : Text) : Bindings → Bindings
  | [] => [(name, value)]
  | (n, v) :: rest =>
    if n = name then (name, value) :: rest
    else if Text.atMost name n then (name, value) :: (n, v) :: rest
    else (n, v) :: insert name value rest

@[simp] theorem get?_insert (name name' value : Text) (b : Bindings) :
    get? name' (insert name value b) = if name = name' then some value else get? name' b := by
  induction b with
  | nil => simp [insert, get?]
  | cons p rest ih =>
    obtain ⟨n, v⟩ := p
    by_cases h : n = name
    · subst h; by_cases h' : n = name' <;> simp [insert, get?, h']
    · by_cases ha : Text.atMost name n
      · simp [insert, get?, h, ha]
      · by_cases h' : n = name'
        · subst h'; simp [insert, get?, h, ha, Ne.symm h]
        · simp [insert, get?, h, ha, h', ih]

end Bindings

end Wcl
