import Wcl.Proofs.Text.Integer
import Wcl.Template.Values

/-!
# All values of a text

`Text.valueList` lists the values of a text however many they are.  Within a
limit `splitWithin` returns that list or gives up, as the list is within the
limit or not (`splitWithin_eq`), and `splitValues` returns it unless there are
more values than can be counted (`splitValues_eq`).

No value brings a dollar sign that is not in the text (`notMem_valueList`), and
neither does padding (`notMem_of_zeroPad?`).
-/

namespace Wcl.Text

/-- The values of one piece; a range is written out. -/
def pieceValues (piece : Text) : List Text :=
  match range? piece with
  | some (first, last) => rangeValues first last
  | none => [piece]

/-- All values of a text. -/
def valueList (delimiter : Char) (t : Text) : List Text :=
  (pieces delimiter t).flatMap pieceValues

theorem rangeSize_eq (first last : Nat) :
    rangeSize first last = min (rangeValues first last).length (countLimit - 1) := by
  unfold rangeSize rangeValues
  rw [List.length_map, List.length_range']
  split <;> omega

/-- What one piece takes from the limit. -/
theorem valuesWithin_cons (limit : Nat) (piece : Text) (rest : List Text) :
    valuesWithin limit (piece :: rest) =
      if limit < min (pieceValues piece).length (countLimit - 1) then none
      else (valuesWithin (limit - min (pieceValues piece).length (countLimit - 1)) rest).map
        (pieceValues piece ++ ·) := by
  rw [valuesWithin, pieceValues]
  cases range? piece with
  | some ends =>
    obtain ⟨first, last⟩ := ends
    dsimp only
    rw [rangeSize_eq]
  | none =>
    have hone : min [piece].length (countLimit - 1) = 1 := rfl
    simp only [hone, Nat.lt_one_iff, List.singleton_append]

theorem valuesWithin_of_le {limit : Nat} {ps : List Text}
    (h : (ps.flatMap pieceValues).length ≤ limit) (hlimit : limit ≤ countLimit - 1) :
    valuesWithin limit ps = some (ps.flatMap pieceValues) := by
  induction ps generalizing limit with
  | nil => rfl
  | cons piece rest ih =>
    rw [List.flatMap_cons, List.length_append] at h
    rw [valuesWithin_cons, if_neg (by omega), ih (by omega) (by omega)]
    rfl

theorem valuesWithin_of_lt {limit : Nat} {ps : List Text}
    (h : limit < (ps.flatMap pieceValues).length) (hlimit : limit < countLimit - 1) :
    valuesWithin limit ps = none := by
  induction ps generalizing limit with
  | nil => cases h
  | cons piece rest ih =>
    rw [List.flatMap_cons, List.length_append] at h
    rw [valuesWithin_cons]
    split
    · rfl
    · rw [ih (by omega) (by omega)]
      rfl

/-- What is returned is the whole list, whatever the limit. -/
theorem valuesWithin_eq_some {limit : Nat} {ps values : List Text}
    (h : valuesWithin limit ps = some values) : values = ps.flatMap pieceValues := by
  induction ps generalizing limit values with
  | nil =>
    cases h
    rfl
  | cons piece rest ih =>
    rw [valuesWithin_cons] at h
    split at h
    · cases h
    · obtain ⟨others, hothers, rfl⟩ := Option.map_eq_some_iff.1 h
      rw [ih hothers, List.flatMap_cons]

theorem splitWithin_eq {limit : Nat} (hlimit : limit < countLimit - 1) (delimiter : Char)
    (t : Text) : splitWithin limit delimiter t =
      if (valueList delimiter t).length ≤ limit then some (valueList delimiter t) else none := by
  split
  · next h => exact valuesWithin_of_le h (Nat.le_of_lt hlimit)
  · next h => exact valuesWithin_of_lt (Nat.lt_of_not_le h) hlimit

theorem splitValues_eq {delimiter : Char} {t : Text}
    (h : (valueList delimiter t).length < countLimit) :
    splitValues delimiter t = valueList delimiter t := by
  unfold splitValues splitWithin
  rw [valuesWithin_of_le (Nat.le_sub_one_of_lt h) (Nat.le_refl _)]
  rfl

/-! ### Dollar signs -/

theorem notMem_natText (n : Nat) : '$' ∉ natText n := by
  intro hm
  have hall := isDigits_natText n
  rw [isDigits, Bool.and_eq_true, List.all_eq_true] at hall
  exact absurd (hall.2 _ hm) (by decide)

theorem notMem_valueList {t : Text} (h : '$' ∉ t) (delimiter : Char) :
    ∀ v ∈ valueList delimiter t, '$' ∉ v := by
  intro v hv hm
  obtain ⟨piece, hpiece, hv⟩ := List.mem_flatMap.1 hv
  rw [pieceValues] at hv
  split at hv
  · obtain ⟨n, _, rfl⟩ := List.mem_map.1 hv
    exact notMem_natText n hm
  · obtain rfl := List.mem_singleton.1 hv
    obtain ⟨part, hpart, rfl⟩ := List.mem_map.1 hpiece
    have hpart := subset_of_mem_splitOn hpart (trim_subset part hm)
    exact h (List.mem_of_mem_filter hpart)

/-- A padded number has no dollar sign. -/
theorem notMem_of_zeroPad? {value width shown : Text} (h : zeroPad? value width = some shown) :
    '$' ∉ shown := by
  obtain ⟨w, n, -, -, rfl⟩ := zeroPad?_eq_some_iff.1 h
  rw [padded, List.mem_append, List.mem_append, not_or, not_or]
  refine ⟨⟨?_, ?_⟩, notMem_natText _⟩
  · rw [signText]
    split <;> decide
  · exact fun hm => absurd (List.eq_of_mem_replicate hm) (by decide)

end Wcl.Text
