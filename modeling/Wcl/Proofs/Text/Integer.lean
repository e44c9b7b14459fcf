import Wcl.Proofs.Text.Scan
import Wcl.Text.Decimal

/-!
# Padded integers

Padding leaves the number: what `padded` writes is a sign and digits
(`isDecimal_padded`), is as wide as it is asked to be or as its number needs
(`length_padded`), and reads back as the number (`readInt?_padded`).
-/

namespace Wcl.Text

/-- A text of digits, perhaps with a minus sign. -/
def IsDecimal (t : Text) : Prop :=
  ∃ digits, isDigits digits = true ∧ (t = digits ∨ t = '-' :: digits)

variable {t : Text} {n : Int}

/-! ### Rows of digits -/

theorem isDigits_iff : isDigits t = true ↔ t ≠ [] ∧ ∀ ch ∈ t, ch.isDigit = true := by
  simp [isDigits]

theorem isDigits_append_of_digits {p : Text} (hp : ∀ ch ∈ p, ch.isDigit = true)
    (ht : isDigits t = true) : isDigits (p ++ t) = true := by
  obtain ⟨hne, hall⟩ := isDigits_iff.1 ht
  refine isDigits_iff.2 ⟨fun h => hne (List.append_eq_nil_iff.1 h).2, fun ch hch => ?_⟩
  exact (List.mem_append.1 hch).elim (hp ch) (hall ch)

theorem notMem_of_isDigits (ht : isDigits t = true) {ch : Char} (hch : ch.isDigit = false) :
    ch ∉ t := by
  intro hm
  rw [(isDigits_iff.1 ht).2 ch hm] at hch
  cases hch

theorem toNat_of_isDigit {ch : Char} (h : ch.isDigit = true) : 48 ≤ ch.toNat ∧ ch.toNat ≤ 57 := by
  simpa [Char.isDigit, UInt32.le_iff_toNat_le] using h

theorem isBlank_of_isDigit {ch : Char} (h : ch.isDigit = true) : isBlank ch = false := by
  have hrange := toNat_of_isDigit h
  simp only [isBlank, Bool.or_eq_false_iff, Bool.and_eq_false_iff, decide_eq_false_iff_not,
    beq_eq_false_iff_ne]
  omega

theorem trim_of_isDigits (ht : isDigits t = true) : trim t = t := by
  have hall := (isDigits_iff.1 ht).2
  refine Tight.trim_eq ⟨fun ch hch => ?_, fun ch hch => ?_⟩
  · exact isBlank_of_isDigit (hall ch (List.mem_of_mem_head? hch))
  · exact isBlank_of_isDigit (hall ch (List.mem_of_mem_getLast? hch))

theorem dropPlus_of_isDigits (ht : isDigits t = true) : dropPlus t = t := by
  have hplus : '+' ∉ t := notMem_of_isDigits ht (by decide)
  unfold dropPlus
  split
  · exact absurd (List.mem_cons_self ..) hplus
  · rfl

theorem readDigits?_eq_some_iff {count : Nat} :
    readDigits? t = some count ↔
      isDigits t = true ∧ natOfDigits t = count ∧ count < countLimit := by
  unfold readDigits?
  constructor
  · intro h
    split at h
    · next hr =>
      cases h
      exact ⟨hr.1, rfl, hr.2⟩
    · cases h
  · rintro ⟨hdigits, rfl, hlt⟩
    exact if_pos ⟨hdigits, hlt⟩

theorem readCount?_of_isDigits (ht : isDigits t = true) :
    readCount? t = if natOfDigits t < countLimit then some (natOfDigits t) else none := by
  rw [readCount?, dropPlus_of_isDigits ht, readDigits?]
  simp only [ht, true_and]

theorem readInt?_of_isDigits (ht : isDigits t = true) :
    readInt? t = if natOfDigits t < integerLimit then some (natOfDigits t : Int) else none := by
  have hminus : '-' ∉ t := notMem_of_isDigits ht (by decide)
  unfold readInt?
  split
  · exact absurd (List.mem_cons_self ..) hminus
  · dsimp only
    rw [dropPlus_of_isDigits ht]
    simp only [ht, true_and]

theorem readInt?_minus (ht : isDigits t = true) :
    readInt? ('-' :: t) =
      if natOfDigits t ≤ integerLimit then some (-(natOfDigits t : Int)) else none := by
  show (if _ then _ else _) = _
  simp only [ht, true_and]

/-- What is read lies in the range of integers. -/
theorem range_of_readInt? (h : readInt? t = some n) :
    -(integerLimit : Int) ≤ n ∧ n < integerLimit := by
  unfold readInt? at h
  split at h
  · split at h
    · next hdigits =>
      cases h
      have hle := hdigits.2
      have hpos : 0 < integerLimit := by decide
      omega
    · cases h
  · dsimp only at h
    split at h
    · next hdigits =>
      cases h
      have hlt := hdigits.2
      omega
    · cases h

/-- What is read as a number has nothing but digits and signs. -/
theorem notMem_of_dropPlus {ch : Char} (hplus : ch ≠ '+') (h : ch ∉ dropPlus t) : ch ∉ t := by
  unfold dropPlus at h
  split at h
  · exact List.not_mem_cons_of_ne_of_not_mem hplus h
  · exact h

theorem notMem_of_readInt? {ch : Char} (hdigit : ch.isDigit = false) (hplus : ch ≠ '+')
    (hminus : ch ≠ '-') (h : readInt? t = some n) : ch ∉ t := by
  unfold readInt? at h
  split at h
  · split at h
    · next hr => exact List.not_mem_cons_of_ne_of_not_mem hminus (notMem_of_isDigits hr.1 hdigit)
    · cases h
  · dsimp only at h
    split at h
    · next hr => exact notMem_of_dropPlus hplus (notMem_of_isDigits hr.1 hdigit)
    · cases h

theorem notMem_of_readCount? {ch : Char} (hdigit : ch.isDigit = false) (hplus : ch ≠ '+')
    {count : Nat} (h : readCount? t = some count) : ch ∉ t := by
  rw [readCount?, readDigits?_eq_some_iff] at h
  exact notMem_of_dropPlus hplus (notMem_of_isDigits h.1 hdigit)

/-! ### Padding -/

/-- The digits of a padded number, zeros in front. -/
theorem isDigits_zeros (k m : Nat) : isDigits (List.replicate k '0' ++ natText m) = true :=
  isDigits_append_of_digits (fun ch hch => by rw [List.eq_of_mem_replicate hch]; rfl)
    (isDigits_natText m)

theorem natOfDigits_zeros (k m : Nat) : natOfDigits (List.replicate k '0' ++ natText m) = m := by
  rw [natOfDigits, Nat.ofDigitChars_append, Nat.ofDigitChars_replicate_zero, Nat.mul_zero]
  exact natOfDigits_natText m

theorem isDecimal_padded (width : Fin widthLimit) (n : Int) : IsDecimal (padded width n) := by
  refine ⟨_, isDigits_zeros (width - (intText n).length) n.natAbs, ?_⟩
  rw [padded, signText, List.append_assoc]
  split
  · exact .inr rfl
  · exact .inl rfl

theorem length_padded (width : Fin widthLimit) (n : Int) :
    (padded width n).length = max width.val (intText n).length := by
  have hlen : (intText n).length = (signText n).length + (natText n.natAbs).length :=
    List.length_append
  rw [padded, List.length_append, List.length_append, List.length_replicate]
  omega

theorem le_length_padded (width : Fin widthLimit) (n : Int) : width ≤ (padded width n).length := by
  rw [length_padded]
  exact Nat.le_max_left ..

/-- A padded number reads back. -/
theorem readInt?_padded (width : Fin widthLimit) (hlow : -(integerLimit : Int) ≤ n)
    (hhigh : n < integerLimit) : readInt? (padded width n) = some n := by
  have hdigits := isDigits_zeros (width - (intText n).length) n.natAbs
  have hvalue := natOfDigits_zeros (width - (intText n).length) n.natAbs
  rw [padded, signText, List.append_assoc]
  split
  · next hneg =>
    refine (readInt?_minus hdigits).trans ?_
    rw [hvalue, if_pos (by omega)]
    congr 1
    omega
  · next hneg =>
    refine (readInt?_of_isDigits hdigits).trans ?_
    rw [hvalue, if_pos (by omega)]
    congr 1
    omega

theorem zeroPad?_eq_some_iff {value width shown : Text} : zeroPad? value width = some shown ↔
    ∃ (w : Fin widthLimit) (n : Int), readCount? (trim width) = some w.val ∧
      readInt? (trim value) = some n ∧ padded w n = shown := by
  unfold zeroPad?
  constructor
  · intro h
    split at h
    · next w n hw hn =>
      split at h
      · next hlt => exact ⟨⟨w, hlt⟩, n, hw, hn, Option.some.inj h⟩
      · cases h
    · cases h
  · rintro ⟨w, n, hw, hn, rfl⟩
    simp only [hw, hn, w.isLt, dif_pos]

/-- What is padded has no dollar sign, and a width has none. -/
theorem notMem_of_zeroPad?_eq_some {value width shown : Text}
    (h : zeroPad? value width = some shown) : '$' ∉ value ∧ '$' ∉ width := by
  obtain ⟨w, n, hw, hn, -⟩ := zeroPad?_eq_some_iff.1 h
  have hvalue := @notMem_of_readInt? _ _ '$' (by decide) (by decide) (by decide) hn
  have hwidth := @notMem_of_readCount? _ '$' (by decide) (by decide) _ hw
  exact ⟨mt (mem_trim (by decide)) hvalue, mt (mem_trim (by decide)) hwidth⟩

/-- What padding to a row of digits gives. -/
theorem zeroPad?_eq_some {value width shown : Text} (hwidth : isDigits width = true)
    (h : zeroPad? value width = some shown) :
    ∃ n, readInt? (trim value) = some n ∧ IsDecimal shown ∧ natOfDigits width ≤ shown.length ∧
      readInt? shown = some n := by
  obtain ⟨w, n, hw, hn, rfl⟩ := zeroPad?_eq_some_iff.1 h
  rw [trim_of_isDigits hwidth, readCount?_of_isDigits hwidth] at hw
  obtain ⟨hlow, hhigh⟩ := range_of_readInt? hn
  have hw : natOfDigits width = w.val := by
    split at hw
    · exact Option.some.inj hw
    · cases hw
  exact ⟨n, hn, isDecimal_padded w n, hw ▸ le_length_padded w n, readInt?_padded w hlow hhigh⟩

end Wcl.Text
