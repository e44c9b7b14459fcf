import Wcl.Document.Search

/-!
# The scalars that a look-up can find

`Document.find?` finds nothing but what stands somewhere in the document or in
the scope: `find?_scalars`.
-/

namespace Wcl

/-- All scalars, at every depth, in the order of the document. -/
def Entries.scalars : Entries → List Text
  | .nil => []
  | .scalar _ t rest => t :: rest.scalars
  | .nested _ _ inner rest => inner.scalars ++ rest.scalars

/-- The scalars in a value. -/
def Value.scalars : Value → List Text
  | .scalar t => [t]
  | .nested d => d.entries.scalars

/-- The scalars in a scope. -/
def Scope.scalars (s : Scope) : List Text :=
  (s.current.getD .empty).entries.scalars ++ (s.object.getD .empty).entries.scalars

theorem Entries.scalars_of_get? {e : Entries} {key : Text} {v : Value} (h : e.get? key = some v) :
    v.scalars ⊆ e.scalars := by
  induction e with
  | nil => cases h
  | scalar k t rest ih =>
    by_cases hk : k = key
    · rw [get?, if_pos hk] at h
      cases h
      exact List.cons_subset_cons t (List.nil_subset _)
    · rw [get?, if_neg hk] at h
      exact List.subset_cons_of_subset t (ih h)
  | nested k o inner rest _ ih =>
    by_cases hk : k = key
    · rw [get?, if_pos hk] at h
      cases h
      exact List.subset_append_left _ _
    · rw [get?, if_neg hk] at h
      exact List.subset_append_of_subset_right _ (ih h)

namespace Document

variable {d d' : Document} {key : Text} {v : Value}

theorem scalars_of_get? (h : d.get? key = some v) : v.scalars ⊆ d.entries.scalars :=
  Entries.scalars_of_get? h

theorem scalars_of_section? (h : d.section? key = some d') :
    d'.entries.scalars ⊆ d.entries.scalars := by
  obtain ⟨v, hv, hd⟩ := Option.bind_eq_some_iff.1 h
  cases v with
  | scalar t => cases hd
  | nested _ =>
    cases hd
    exact scalars_of_get? hv

theorem scalars_of_valueAt? {path : List Text} (h : valueAt? path d = some v) :
    v.scalars ⊆ d.entries.scalars := by
  induction path generalizing d with
  | nil => cases h
  | cons k ks ih =>
    cases ks with
    | nil => exact scalars_of_get? h
    | cons k' ks =>
      obtain ⟨d', hd', h⟩ := Option.bind_eq_some_iff.1 h
      exact List.Subset.trans (ih h) (scalars_of_section? hd')

theorem scalars_of_currentValue? {s : Scope} (h : d.currentValue? s key = some v) :
    v.scalars ⊆ d.entries.scalars ++ s.scalars := by
  rcases Option.or_eq_some_iff.1 h with h | ⟨_, h⟩
  · obtain ⟨d', hd', h⟩ := Option.bind_eq_some_iff.1 h
    intro t ht
    have hmem := scalars_of_get? h ht
    simp [Scope.scalars, hd', hmem]
  · obtain ⟨d', hd', h⟩ := Option.bind_eq_some_iff.1 h
    exact List.subset_append_of_subset_left _
      (List.Subset.trans (scalars_of_get? h) (scalars_of_section? hd'))

theorem scalars_of_selected? {s : Scope} {name : Text} (h : d.selected? s name = some d') :
    d'.entries.scalars ⊆ d.entries.scalars := by
  obtain ⟨part, _, h⟩ := Option.bind_eq_some_iff.1 h
  obtain ⟨outer, houter, h⟩ := Option.bind_eq_some_iff.1 h
  exact List.Subset.trans (scalars_of_section? h) (scalars_of_section? houter)

/-- What a look-up finds stands in the document or in the scope. -/
theorem find?_scalars {s : Scope} (h : d.find? s key = some v) :
    v.scalars ⊆ d.entries.scalars ++ s.scalars := by
  unfold find? at h
  dsimp only at h
  split at h
  · exact List.subset_append_of_subset_left _ (scalars_of_valueAt? h)
  rcases Option.or_eq_some_iff.1 h with h | ⟨_, h⟩
  · exact scalars_of_currentValue? h
  rcases Option.or_eq_some_iff.1 h with h | ⟨_, h⟩
  · obtain ⟨d', hd', h⟩ := Option.bind_eq_some_iff.1 h
    intro t ht
    have hmem := scalars_of_get? h ht
    simp [Scope.scalars, hd', hmem]
  rcases Option.or_eq_some_iff.1 h with h | ⟨_, h⟩
  · obtain ⟨name, _, h⟩ := List.exists_of_findSome?_eq_some h
    obtain ⟨d', hd', h⟩ := Option.bind_eq_some_iff.1 h
    exact List.subset_append_of_subset_left _
      (List.Subset.trans (scalars_of_get? h) (scalars_of_selected? hd'))
  · exact List.subset_append_of_subset_left _ (scalars_of_get? h)

end Document

end Wcl
