import Mathlib.Algebra.Group.Nat.Defs
import Wcl.Proofs.Text.Integer
import Wcl.Template.Resolve

/-!
# Zero padding

What a width asks for, said without the functions that read numbers.  A text
spells a count or an integer if it is digits, perhaps behind a sign
(`Text.SpellsCount`, `Text.SpellsInteger`), and reading it gives the number if it
is in range and nothing otherwise (`readCount?_of_spells`, `readInt?_of_spells`).
The decimal form that padding begins with is the shortest spelling of its number
(`length_intText_le`).

So padding is exact where a width is not too large: it succeeds on just the numbers
in range, and what it gives is as long as the width or the shortest form, spells
the same number with nothing but zeros put in, and is left alone by padding it
again (`Context.zeroPad_outcome`).  A count that is no width is not reported as a
malformed one: the program breaks off (`Context.resolveSingle_tooWide`).
-/

namespace Wcl

namespace Text

variable {t value width shown : Text} {n : Int} {count : Nat}

/-! ### Spelled numbers -/

/-- A number without a minus sign: digits, perhaps behind a plus sign. -/
inductive SpellsCount : Text → Nat → Prop
  | digits {t : Text} : isDigits t = true → SpellsCount t (natOfDigits t)
  | plus {t : Text} : isDigits t = true → SpellsCount ('+' :: t) (natOfDigits t)

/-- A number with a minus sign or without one. -/
inductive SpellsInteger : Text → Int → Prop
  | count {t : Text} {n : Nat} : SpellsCount t n → SpellsInteger t n
  | minus {t : Text} : isDigits t = true → SpellsInteger ('-' :: t) (-(natOfDigits t : Int))

/-- The integers that can be read. -/
def InRange (n : Int) : Prop := -(integerLimit : Int) ≤ n ∧ n < integerLimit

instance (n : Int) : Decidable (InRange n) := inferInstanceAs (Decidable (_ ∧ _))

theorem spellsCount_iff : SpellsCount t count ↔
    isDigits (dropPlus t) = true ∧ natOfDigits (dropPlus t) = count := by
  constructor
  · intro h
    cases h with
    | digits ht =>
      rw [dropPlus_of_isDigits ht]
      exact ⟨ht, rfl⟩
    | plus hr => exact ⟨hr, rfl⟩
  · rintro ⟨hdigits, rfl⟩
    unfold dropPlus at hdigits ⊢
    split at hdigits
    · exact .plus hdigits
    · exact .digits hdigits

theorem SpellsCount.unique {count' : Nat} (h : SpellsCount t count) (h' : SpellsCount t count') :
    count = count' :=
  (spellsCount_iff.1 h).2.symm.trans (spellsCount_iff.1 h').2

theorem not_spellsCount_minus : ¬ SpellsCount ('-' :: t) count := by
  intro h
  have hdigits : isDigits ('-' :: t) = true := (spellsCount_iff.1 h).1
  exact notMem_of_isDigits hdigits rfl List.mem_cons_self

theorem SpellsInteger.unique {n' : Int} (h : SpellsInteger t n) (h' : SpellsInteger t n') :
    n = n' := by
  cases h with
  | minus _ =>
    cases h' with
    | minus _ => rfl
    | count hcount => exact absurd hcount not_spellsCount_minus
  | count hcount =>
    cases h' with
    | minus _ => exact absurd hcount not_spellsCount_minus
    | count hcount' => exact congrArg _ (hcount.unique hcount')

/-! ### Reading them -/

theorem readCount?_of_spells (h : SpellsCount t count) :
    readCount? t = if count < countLimit then some count else none := by
  obtain ⟨hdigits, rfl⟩ := spellsCount_iff.1 h
  simp only [readCount?, readDigits?, hdigits, true_and]

theorem spellsCount_of_readCount? (h : readCount? t = some count) :
    SpellsCount t count ∧ count < countLimit := by
  obtain ⟨hdigits, hcount, hlt⟩ := readDigits?_eq_some_iff.1 h
  exact ⟨spellsCount_iff.2 ⟨hdigits, hcount⟩, hlt⟩

theorem readInt?_of_spells (h : SpellsInteger t n) :
    readInt? t = if InRange n then some n else none := by
  have hpos : 0 < integerLimit := by decide
  cases h with
  | @minus r hr =>
    have hiff : natOfDigits r ≤ integerLimit ↔ InRange (-(natOfDigits r : Int)) := by
      unfold InRange
      omega
    rw [readInt?_minus hr]
    simp only [hiff]
  | @count _ m hcount =>
    have hiff : m < integerLimit ↔ InRange (m : Int) := by
      unfold InRange
      omega
    cases hcount with
    | digits ht =>
      rw [readInt?_of_isDigits ht]
      simp only [hiff]
    | @plus r hr =>
      show (if isDigits r = true ∧ natOfDigits r < integerLimit then
        some (natOfDigits r : Int) else none) = _
      simp only [hr, true_and, hiff]

theorem spellsInteger_of_readInt? (h : readInt? t = some n) : SpellsInteger t n ∧ InRange n := by
  refine ⟨?_, range_of_readInt? h⟩
  unfold readInt? at h
  split at h
  · split at h
    · next hr =>
      cases h
      exact .minus hr.1
    · cases h
  · dsimp only at h
    split at h
    · next hr =>
      cases h
      exact .count (spellsCount_iff.2 ⟨hr.1, rfl⟩)
    · cases h

/-! ### The shortest form -/

/-- A row of digits is less than the power of ten with as many zeros. -/
theorem natOfDigits_lt (h : ∀ ch ∈ t, ch.isDigit = true) : natOfDigits t < 10 ^ t.length := by
  induction t with
  | nil => simp [natOfDigits]
  | cons ch r ih =>
    obtain ⟨hch, hr⟩ := List.forall_mem_cons.1 h
    have hdigit : ch.toNat - '0'.toNat ≤ 9 := by
      have hrange := toNat_of_isDigit hch
      simp only [Char.reduceToNat]
      omega
    have hrest : Nat.ofDigitChars 10 r 0 < 10 ^ r.length := ih hr
    have hlead : 10 ^ r.length * (ch.toNat - '0'.toNat) ≤ 10 ^ r.length * 9 :=
      Nat.mul_le_mul_left _ hdigit
    rw [natOfDigits, Nat.ofDigitChars_cons, Nat.ofDigitChars_eq_ofDigitChars_zero,
      Nat.mul_zero, Nat.zero_add, List.length_cons, Nat.pow_succ]
    omega

theorem length_natText_le (h : isDigits t = true) :
    (natText (natOfDigits t)).length ≤ t.length := by
  obtain ⟨hne, hall⟩ := isDigits_iff.1 h
  exact (Nat.length_toDigits_le_iff (by decide) (List.length_pos_iff.2 hne)).2
    (natOfDigits_lt hall)

/-- No text that spells an integer is shorter than its decimal form. -/
theorem length_intText_le (h : SpellsInteger t n) : (intText n).length ≤ t.length := by
  cases h with
  | @minus r hr =>
    have hdigits := length_natText_le hr
    have hsign : (signText (-(natOfDigits r : Int))).length ≤ 1 := by
      unfold signText
      split <;> simp
    rw [intText, List.length_append, Int.natAbs_neg, Int.natAbs_natCast, List.length_cons]
    omega
  | @count _ m hcount =>
    have hsign : signText (m : Int) = [] := if_neg (by omega)
    rw [intText, hsign, List.nil_append, Int.natAbs_natCast]
    cases hcount with
    | digits ht => exact length_natText_le ht
    | plus hr => exact Nat.le_succ_of_le (length_natText_le hr)

/-! ### Padding -/

/-- Padding puts zeros between the sign and the digits. -/
theorem padded_eq (w : Fin widthLimit) (n : Int) : ∃ zeros,
    padded w n = signText n ++ List.replicate zeros '0' ++ natText n.natAbs :=
  ⟨_, rfl⟩

/-- Blanks around a padded number are none of its own. -/
theorem trim_padded (w : Fin widthLimit) (n : Int) : trim (padded w n) = padded w n := by
  obtain ⟨digits, hdigits, h | h⟩ := isDecimal_padded w n
  · rw [h]
    exact trim_of_isDigits hdigits
  · have hne := (isDigits_iff.1 hdigits).1
    have htight : Tight digits := tight_of_trim_eq (trim_of_isDigits hdigits)
    rw [h]
    refine Tight.trim_eq ⟨fun ch hch => ?_, fun ch hch => ?_⟩
    · obtain rfl : '-' = ch := Option.some.inj hch
      rfl
    · rw [List.getLast?_cons_of_ne_nil hne] at hch
      exact htight.2 ch hch

theorem zeroPad?_of_spells (w : Fin widthLimit) (hwidth : SpellsCount (trim width) w.val)
    (hvalue : SpellsInteger (trim value) n) (hrange : InRange n) :
    zeroPad? value width = some (padded w n) := by
  have hcount : w.val < countLimit := Nat.lt_trans w.isLt (by decide)
  have hw : readCount? (trim width) = some w.val := by
    rw [readCount?_of_spells hwidth, if_pos hcount]
  have hn : readInt? (trim value) = some n := by
    rw [readInt?_of_spells hvalue, if_pos hrange]
  exact zeroPad?_eq_some_iff.2 ⟨w, n, hw, hn, rfl⟩

theorem exists_spells_of_zeroPad? (h : zeroPad? value width = some shown) :
    ∃ (w : Fin widthLimit) (n : Int), SpellsCount (trim width) w.val ∧
      SpellsInteger (trim value) n ∧ InRange n ∧ padded w n = shown := by
  obtain ⟨w, n, hw, hn, hshown⟩ := zeroPad?_eq_some_iff.1 h
  obtain ⟨hvalue, hrange⟩ := spellsInteger_of_readInt? hn
  exact ⟨w, n, (spellsCount_of_readCount? hw).1, hvalue, hrange, hshown⟩

/-- What has been padded to a width is not changed by padding it to that width. -/
theorem zeroPad?_zeroPad? (h : zeroPad? value width = some shown) :
    zeroPad? shown width = some shown := by
  obtain ⟨w, n, hwidth, _, hrange, rfl⟩ := exists_spells_of_zeroPad? h
  have hread : readInt? (padded w n) = some n := readInt?_padded w hrange.1 hrange.2
  have hspells : SpellsInteger (trim (padded w n)) n := by
    rw [trim_padded]
    exact (spellsInteger_of_readInt? hread).1
  exact zeroPad?_of_spells w hwidth hspells hrange

end Text

namespace Context

variable {c : Context} {inner : (name value : Text) → Traced Text} {item : Combination}
  {token : Token} {body value width number : Text}

/-- The width reads as a count and the value as an integer. -/
def BothNumbers (value width : Text) : Prop :=
  (∃ w, Text.SpellsCount (Text.trim width) w ∧ w < Text.countLimit) ∧
    ∃ n, Text.SpellsInteger (Text.trim value) n ∧ Text.InRange n

theorem unpaddable_of_spells {w : Nat} {n : Int} (hwidth : Text.SpellsCount (Text.trim width) w)
    (hcount : w < Text.countLimit) (hvalue : Text.SpellsInteger (Text.trim value) n)
    (hrange : Text.InRange n) : unpaddable value width = .tooWide w := by
  unfold unpaddable
  rw [Text.readCount?_of_spells hwidth, if_pos hcount, Text.readInt?_of_spells hvalue,
    if_pos hrange]

theorem unpaddable_eq_badFormat_iff :
    unpaddable value width = .badFormat ("%0".toList ++ width ++ ['d']) value ↔
      ¬ BothNumbers value width := by
  constructor
  · rintro h ⟨⟨w, hwidth, hcount⟩, n, hvalue, hrange⟩
    rw [unpaddable_of_spells hwidth hcount hvalue hrange] at h
    cases h
  · intro h
    unfold unpaddable
    split
    · next w n hw hn =>
      obtain ⟨hwidth, hcount⟩ := Text.spellsCount_of_readCount? hw
      exact absurd ⟨⟨w, hwidth, hcount⟩, n, Text.spellsInteger_of_readInt? hn⟩ h
    · rfl

/-- A loop token with a width pads the value that it is given. -/
theorem assign_eq_of_width (hwidth : Token.widthIn? token.body = some width) (value : Text) :
    assign item token value = match Text.zeroPad? value width with
      | some shown => .ok ⟨Text.replaceAll token.spelling shown item.text,
          item.bindings.insert (Token.nameIn token.body) value⟩
      | none => .error (unpaddable value width) := by
  unfold assign
  cases hpad : Text.zeroPad? value width <;> simp only [hwidth, hpad]

/-- A reference with a width pads the number that its variable's value resolves to. -/
theorem result_variableValue?_of_width (hwidth : Token.widthIn? body = some width)
    (hfind : c.document.find? c.scope (Token.nameIn body) = some (.scalar value))
    (hvalue : Text.isMultiValued value = false)
    (hnumber : (inner (Token.nameIn body) value).result = .ok number) :
    (c.variableValue? inner body).result = match Text.zeroPad? number width with
      | some shown => .ok (some ⟨shown, some (Token.nameIn body, number)⟩)
      | none => .error (unpaddable number width) := by
  unfold variableValue?
  simp only [hfind, hvalue, hwidth, Bool.false_eq_true, if_false]
  rw [Traced.result_bind, hnumber]
  cases hpad : Text.zeroPad? number width <;> simp only [bind, Except.bind, hpad] <;> rfl

/-- **Padding is exact on all integers.**  A value is padded to a width if and only
if the width, blanks aside, spells a number that is a width and the value an integer
in range; otherwise loop tokens and references alike end in an error.  It is a
format error unless both are numbers, and if they are the width is too large.  What
is shown reads back as the integer and is as long as the width, or as the shortest
spelling of the integer if that is longer.  It is the sign, zeros and the shortest
digits, and padding it to the same width changes nothing. -/
theorem zeroPad_outcome (value width : Text) :
    ((∃ shown, Text.zeroPad? value width = some shown) ↔
      (∃ w, Text.SpellsCount (Text.trim width) w ∧ w < Text.widthLimit) ∧
        ∃ n, Text.SpellsInteger (Text.trim value) n ∧ Text.InRange n) ∧
    (unpaddable value width = .badFormat ("%0".toList ++ width ++ ['d']) value ↔
      ¬ BothNumbers value width) ∧
    (∀ w, BothNumbers value width → Text.SpellsCount (Text.trim width) w →
      unpaddable value width = .tooWide w) ∧
    (∀ (item : Combination) (token : Token), Token.widthIn? token.body = some width →
      assign item token value = match Text.zeroPad? value width with
        | some shown => .ok ⟨Text.replaceAll token.spelling shown item.text,
            item.bindings.insert (Token.nameIn token.body) value⟩
        | none => .error (unpaddable value width)) ∧
    (∀ (c : Context) (inner : (name value : Text) → Traced Text) (body raw : Text),
      Token.widthIn? body = some width →
      c.document.find? c.scope (Token.nameIn body) = some (.scalar raw) →
      Text.isMultiValued raw = false → (inner (Token.nameIn body) raw).result = .ok value →
      (c.variableValue? inner body).result = match Text.zeroPad? value width with
        | some shown => .ok (some ⟨shown, some (Token.nameIn body, value)⟩)
        | none => .error (unpaddable value width)) ∧
    ∀ shown w n, Text.zeroPad? value width = some shown →
      Text.SpellsCount (Text.trim width) w → Text.SpellsInteger (Text.trim value) n →
      Text.readInt? shown = some n ∧
        shown.length = max w (Text.intText n).length ∧
        (∀ t, Text.SpellsInteger t n → (Text.intText n).length ≤ t.length) ∧
        (∃ zeros, shown =
          Text.signText n ++ List.replicate zeros '0' ++ Text.natText n.natAbs) ∧
        Text.zeroPad? shown width = some shown := by
  refine ⟨⟨?_, ?_⟩, unpaddable_eq_badFormat_iff, ?_,
    fun item token hwidth => assign_eq_of_width hwidth value,
    fun c inner body raw hwidth hfind hraw hvalue =>
      result_variableValue?_of_width hwidth hfind hraw hvalue, ?_⟩
  · rintro ⟨shown, h⟩
    obtain ⟨w, n, hwidth, hvalue, hrange, _⟩ := Text.exists_spells_of_zeroPad? h
    exact ⟨⟨w, hwidth, w.isLt⟩, n, hvalue, hrange⟩
  · rintro ⟨⟨w, hwidth, hlt⟩, n, hvalue, hrange⟩
    exact ⟨_, Text.zeroPad?_of_spells ⟨w, hlt⟩ hwidth hvalue hrange⟩
  · rintro w ⟨⟨w', hwidth', hcount⟩, n, hvalue, hrange⟩ hwidth
    obtain rfl := hwidth.unique hwidth'
    exact unpaddable_of_spells hwidth hcount hvalue hrange
  · intro shown w n h hwidth hvalue
    have hagain := Text.zeroPad?_zeroPad? h
    obtain ⟨w', n', hwidth', hvalue', ⟨hlow, hhigh⟩, rfl⟩ := Text.exists_spells_of_zeroPad? h
    obtain rfl := hwidth.unique hwidth'
    obtain rfl := hvalue.unique hvalue'
    exact ⟨Text.readInt?_padded w' hlow hhigh, Text.length_padded w' n,
      fun t ht => Text.length_intText_le ht, Text.padded_eq w' n, hagain⟩

/-- A negative number with zeros and a blank of its own, the integer behind the
largest one that can be padded, and the count behind the largest width. -/
theorem zeroPad_outcome_signed :
    let value := "-007 ".toList
    let width := " +5".toList
    let shown := "-0007".toList
    let tooLarge := "9223372036854775808".toList
    let tooWide := "65536".toList
    let body := "n: +5".toList
    let item : Combination := ⟨loopToken body, []⟩
    let c : Context := { document := .ofList [("n".toList, .scalar value)] }
    let inner : Text → Text → Traced Text := fun _ v => pure v
    Text.zeroPad? value width = some shown ∧
      assign item ⟨item.text, body⟩ value = .ok ⟨shown, [("n".toList, value)]⟩ ∧
      (c.variableValue? inner body).result = .ok (some ⟨shown, some ("n".toList, value)⟩) ∧
      Text.readInt? shown = some (-7) ∧ shown.length = max 5 2 ∧
      Text.zeroPad? shown width = some shown ∧
      assign item ⟨item.text, body⟩ tooLarge =
        .error (.badFormat "%0 +5d".toList tooLarge) ∧
      unpaddable value tooWide = .tooWide 65536 := by
  intro value width shown tooLarge tooWide body item c inner
  have hwidth : Text.SpellsCount (Text.trim width) 5 :=
    .plus (t := ['5']) rfl
  have hvalue : Text.SpellsInteger (Text.trim value) (-7) :=
    .minus (t := "007".toList) rfl
  have h : Text.zeroPad? value width = some shown := rfl
  obtain ⟨_, _, _, hassign, hreference, hshown⟩ := zeroPad_outcome value width
  obtain ⟨hread, hlength, _, _, hagain⟩ := hshown shown 5 (-7) h hwidth hvalue
  have htoken := hassign item ⟨item.text, body⟩ rfl
  have hbody := hreference c inner body value rfl rfl rfl rfl
  have hlarge := (zeroPad_outcome tooLarge width).2.2.2.1 item ⟨item.text, body⟩ rfl
  have hwide : Text.SpellsCount (Text.trim tooWide) 65536 := .digits (t := tooWide) rfl
  have hnumbers : BothNumbers value tooWide :=
    ⟨⟨65536, hwide, by decide⟩, -7, hvalue, by decide⟩
  exact ⟨h, htoken, hbody, hread, hlength, hagain, hlarge,
    (zeroPad_outcome value tooWide).2.2.1 65536 hnumbers hwide⟩

/-- A count and an integer in range, and no text for them. -/
theorem resolveSingle_tooWide :
    let value := "7".toList
    let width := "65536".toList
    let c : Context := { document := .ofList [("a".toList, .scalar value)] }
    BothNumbers value width ∧ Text.zeroPad? value width = none ∧
      unpaddable value width ≠ .badFormat ("%0".toList ++ width ++ ['d']) value ∧
      (c.resolveSingle "$\x7ba:65536\x7d".toList).result = .error (.tooWide 65536) := by
  intro value width c
  have hnumbers : BothNumbers value width :=
    ⟨⟨65536, .digits (t := width) rfl, by decide⟩, 7, .count (.digits (t := value) rfl), by decide⟩
  exact ⟨hnumbers, rfl, by decide, by rfl⟩

end Context

end Wcl
