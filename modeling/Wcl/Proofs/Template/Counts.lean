import Wcl.Proofs.Template.LoopBudget
import Wcl.Proofs.Text.Integer

/-!
# Counts that do not wrap

Splitting a text and expanding its loops count, and a count has a machine's range:
a difference must not fall below zero and a sum must stay below `countLimit`.
`Text.splitHolding` and `Context.expandCounting` are the same two recursions with
every such operation checked, and with the values in hand checked against the
limit; they end in a `CountFault` where a check fails.

No check ever does.  Splitting with checks gives what splitting gives
(`Text.splitHolding_eq`), and so does expanding (`Context.expandCounting_eq`): the
values held and the room that is left make up the limit, and what is counted
never exceeds the budget.
-/

namespace Wcl

/-- What a count cannot be, or a limit cannot allow. -/
inductive CountFault
  /-- A difference below zero, or a sum that is no count. -/
  | wraps
  /-- More values in hand than the limit. -/
  | overfull
  deriving DecidableEq, Repr

/-- The difference of two counts. -/
def checkedSub (a b : Nat) : Except CountFault Nat := if b ≤ a then .ok (a - b) else .error .wraps

/-- The sum of two counts. -/
def checkedAdd (a b : Nat) : Except CountFault { n // n = a + b } :=
  if a + b < Text.countLimit then .ok ⟨a + b, rfl⟩ else .error .wraps

/-- A computation without counts. -/
def unchecked {α : Type} (x : Except Error α) : ExceptT Error (Except CountFault) α := .mk (.ok x)

theorem checkedSub_of_le {a b : Nat} (h : b ≤ a) : checkedSub a b = .ok (a - b) := if_pos h

theorem checkedAdd_of_lt {a b : Nat} (h : a + b < Text.countLimit) :
    checkedAdd a b = .ok ⟨a + b, rfl⟩ := if_pos h

theorem unchecked_bind {α β : Type} {x : Except Error α} {f : α → Except Error β}
    {g : α → ExceptT Error (Except CountFault) β} (h : ∀ a, x = .ok a → g a = unchecked (f a)) :
    unchecked x >>= g = unchecked (x >>= f) := by
  cases x with
  | error e => rfl
  | ok a => exact h a rfl

namespace Text

variable {limit : Nat} {piece : Text} {ps held values : List Text} {delimiter : Char} {t : Text}

/-! ### The values of a piece -/

/-- A piece of the form `A:B`, and the two numbers. -/
def IsRange (piece : Text) (first last : Nat) : Prop :=
  ∃ a b, piece = a ++ ':' :: b ∧ isDigits a = true ∧ natOfDigits a = first ∧ first < countLimit ∧
    isDigits b = true ∧ natOfDigits b = last ∧ last < countLimit

/-- What a piece stands for: the numbers of a range in order, or itself. -/
inductive StandsFor : Text → List Text → Prop
  | range {piece : Text} {first last : Nat} : IsRange piece first last →
    StandsFor piece ((List.range' first (last + 1 - first)).map natText)
  | itself {piece : Text} : (∀ first last, ¬ IsRange piece first last) → StandsFor piece [piece]

theorem eq_append_of_cutAt {d : Char} {front back : Text} (h : cutAt d t = (front, some back)) :
    t = front ++ d :: back := by
  induction t generalizing front with
  | nil => cases h
  | cons c r ih =>
    by_cases hc : c = d
    · subst hc
      rw [cutAt, if_pos rfl] at h
      cases h
      rfl
    · rw [cutAt, if_neg hc] at h
      obtain ⟨rfl, hback⟩ := Prod.mk.inj h
      rw [List.cons_append, ← ih (Prod.ext rfl hback)]

theorem range?_eq_some_iff {first last : Nat} :
    range? piece = some (first, last) ↔ IsRange piece first last := by
  constructor
  · intro h
    unfold range? at h
    split at h
    · next a b hcut =>
      split at h
      · next m n hm hn =>
        cases h
        obtain ⟨ha, hfirst, hfirstLimit⟩ := readDigits?_eq_some_iff.1 hm
        obtain ⟨hb, hlast, hlastLimit⟩ := readDigits?_eq_some_iff.1 hn
        exact ⟨a, b, eq_append_of_cutAt hcut, ha, hfirst, hfirstLimit, hb, hlast, hlastLimit⟩
      · cases h
    · cases h
  · rintro ⟨a, b, rfl, ha, hfirst, hfirstLimit, hb, hlast, hlastLimit⟩
    have hcolon : ':' ∉ a := notMem_of_isDigits ha (by decide)
    rw [range?, cutAt_append hcolon]
    simp only [readDigits?_eq_some_iff.2 ⟨ha, hfirst, hfirstLimit⟩,
      readDigits?_eq_some_iff.2 ⟨hb, hlast, hlastLimit⟩]

/-- Every piece stands for one list of values. -/
theorem standsFor_iff : StandsFor piece values ↔ pieceValues piece = values := by
  rw [pieceValues]
  cases hrange : range? piece with
  | some ends =>
    obtain ⟨first, last⟩ := ends
    have hpiece := range?_eq_some_iff.1 hrange
    constructor
    · intro h
      cases h with
      | range hpiece' =>
        rw [range?_eq_some_iff.2 hpiece'] at hrange
        cases hrange
        rfl
      | itself hnone => exact absurd hpiece (hnone first last)
    · rintro rfl
      exact .range hpiece
  | none =>
    have hnone : ∀ first last, ¬ IsRange piece first last := by
      intro first last hpiece
      rw [range?_eq_some_iff.2 hpiece] at hrange
      cases hrange
    constructor
    · intro h
      cases h with
      | range hpiece => exact absurd hpiece (hnone _ _)
      | itself _ => rfl
    · rintro rfl
      exact .itself hnone

theorem forall₂_standsFor_iff {lists : List (List Text)} :
    List.Forall₂ StandsFor ps lists ↔ ps.map pieceValues = lists := by
  rw [show StandsFor = fun piece values => pieceValues piece = values from
    funext fun _ => funext fun _ => propext standsFor_iff]
  rw [← List.forall₂_map_left_iff, List.forall₂_eq_eq_eq]

/-! ### Splitting with checks -/

/-- The size of a range: one more than the difference of its ends, or the greatest
count where that is none. -/
def checkedSize (first last : Nat) : Except CountFault Nat :=
  if last < first then .ok 0
  else do
    let difference ← checkedSub last first
    return min (difference + 1) (countLimit - 1)

/-- Takes one more value in hand. -/
def hold (limit : Nat) (held : List Text) (value : Text) : Except CountFault (List Text) :=
  if held.length < limit then .ok (held ++ [value]) else .error .overfull

/-- Splits the pieces that are left, with the values in hand. -/
def splitHolding (limit : Nat) : (pieces held : List Text) →
    Except CountFault (Option (List Text))
  | [], held => return some held
  | piece :: rest, held =>
    match range? piece with
    | some (first, last) => do
      let size ← checkedSize first last
      let room ← checkedSub limit held.length
      if room < size then return none
      else splitHolding limit rest (← (rangeValues first last).foldlM (hold limit) held)
    | none => do
      if limit ≤ held.length then return none
      else splitHolding limit rest (← hold limit held piece)

theorem checkedSize_eq (first last : Nat) :
    checkedSize first last = .ok (rangeSize first last) := by
  unfold checkedSize rangeSize
  split
  · rfl
  · next h =>
    rw [checkedSub_of_le (Nat.le_of_not_lt h)]
    rfl

theorem foldlM_hold {values : List Text} (h : held.length + values.length ≤ limit) :
    values.foldlM (hold limit) held = .ok (held ++ values) := by
  induction values generalizing held with
  | nil => exact congrArg _ (List.append_nil held).symm
  | cons value values ih =>
    rw [List.length_cons] at h
    have hroom : held.length < limit := by omega
    rw [List.foldlM_cons, hold, if_pos hroom]
    refine (ih ?_).trans ?_
    · rw [List.length_append, List.length_singleton]
      omega
    · rw [List.append_assoc]
      rfl

/-- No check fails while the pieces are split, and what comes of it is what
splitting gives for the room that is left. -/
theorem splitHolding_eq (hlimit : limit < countLimit - 1) (hheld : held.length ≤ limit) :
    splitHolding limit ps held =
      .ok ((valuesWithin (limit - held.length) ps).map (held ++ ·)) := by
  induction ps generalizing held with
  | nil => simp [splitHolding, valuesWithin, pure, Except.pure]
  | cons piece rest ih =>
    have hrest : ∀ values : List Text, held.length + values.length ≤ limit →
        splitHolding limit rest (held ++ values) =
          .ok ((valuesWithin (limit - held.length - values.length) rest).map fun others =>
            held ++ (values ++ others)) := by
      intro values hvalues
      have hlen : (held ++ values).length = held.length + values.length := List.length_append
      rw [ih (by omega), hlen, Nat.sub_sub]
      simp only [List.append_assoc]
    rw [splitHolding, valuesWithin]
    cases hrange : range? piece with
    | some ends =>
      obtain ⟨first, last⟩ := ends
      dsimp only
      rw [checkedSize_eq, checkedSub_of_le hheld]
      show (if _ then _ else _) = _
      split
      · rfl
      · next hsize =>
        -- A range that has room is no longer than a count, so its size is not cut.
        have hfull : (rangeValues first last).length = rangeSize first last := by
          have hsize' := rangeSize_eq first last
          omega
        rw [foldlM_hold (by omega)]
        refine (hrest _ (by omega)).trans ?_
        rw [hfull, Option.map_map]
        rfl
    | none =>
      dsimp only
      by_cases hfull : limit ≤ held.length
      · rw [if_pos hfull, if_pos (by omega)]
        rfl
      · rw [if_neg hfull, if_neg (by omega), hold, if_pos (by omega)]
        refine (hrest [piece] (by rw [List.length_singleton]; omega)).trans ?_
        rw [List.length_singleton, Option.map_map]
        rfl

end Text

namespace Context

variable {c : Context} {template : Text} {item : Combination} {stack : List Combination}
  {count limit : Nat} {token : Token} {values : List Text}

/-! ### Expanding with checks -/

/-- Expands the texts on a stack, with the count of all texts taken and made so
far. -/
def expandCounting (c : Context) (template : Text) (count : Nat) (stack : List Combination) :
    ExceptT Error (Except CountFault) (List Combination) :=
  match stack with
  | [] => return []
  | item :: stack => do
    let ⟨taken, _⟩ ← checkedAdd count 1
    if _ : loopBudget < taken then throw (.endless template)
    else match Token.first? loopKind item.text with
      | none => do
        let others ← c.expandCounting template taken stack
        return item :: others
      | some token => do
        let limit ← checkedSub loopBudget taken
        let values ← unchecked (c.loopValues template limit token)
        let ⟨made, _⟩ ← checkedAdd taken values.length
        let items ← unchecked (values.mapM (assign item token))
        let unfinished := items.filter (hasLoops ·.text)
        let others ← c.expandCounting template made (unfinished.reverse ++ stack)
        return items.filter (!hasLoops ·.text) ++ others
termination_by loopBudget + 1 - count

theorem length_le_of_loopValues (hlimit : limit < Text.countLimit - 1)
    (h : c.loopValues template limit token = .ok values) : values.length ≤ limit := by
  obtain ⟨text, _, hsplit⟩ := exists_of_loopValues h
  rw [Text.splitWithin_eq hlimit] at hsplit
  split at hsplit
  · next hle =>
    cases hsplit
    exact hle
  · cases hsplit

/-- No check fails while texts are expanded, and what comes of it is what expanding
gives for the budget that is left. -/
theorem expandCounting_eq (hcount : count ≤ loopBudget) :
    c.expandCounting template count stack =
      unchecked (c.expandStack template (loopBudget - count) stack) := by
  have hbudget : loopBudget < Text.countLimit - 1 := by decide
  generalize hleft : loopBudget - count = left
  induction left using Nat.strong_induction_on generalizing count stack with
  | _ left ih =>
  cases stack with
  | nil =>
    rw [expandCounting, expandStack]
    rfl
  | cons item stack =>
    rw [expandCounting, checkedAdd_of_lt (by omega)]
    show (if _ : loopBudget < count + 1 then _ else _) = _
    cases left with
    | zero =>
      have hover : loopBudget < count + 1 := by omega
      rw [dif_pos hover, expandStack]
      rfl
    | succ left =>
      have hover : ¬ loopBudget < count + 1 := by omega
      rw [dif_neg hover, expandStack]
      cases hf : Token.first? loopKind item.text with
      | none =>
        have hrest := @ih left (by omega) stack (count + 1) (by omega) (by omega)
        dsimp only
        rw [hrest]
        exact unchecked_bind fun others _ => rfl
      | some token =>
        have hlimit : loopBudget - (count + 1) = left := by omega
        dsimp only
        rw [checkedSub_of_le (by omega), hlimit]
        show (unchecked (c.loopValues template left token) >>= _) = _
        refine unchecked_bind fun values hvalues => ?_
        have hle : values.length ≤ left := length_le_of_loopValues (by omega) hvalues
        rw [checkedAdd_of_lt (by omega)]
        show (unchecked (values.mapM (assign item token)) >>= _) = _
        refine unchecked_bind fun items _ => ?_
        dsimp only
        rw [ih (left - values.length) (by omega) (by omega) (by omega)]
        exact unchecked_bind fun others _ => rfl

/-- **Splitting within a limit is exact, and counts do not wrap.**  Every piece of a
text stands for a list of values, and within any limit that a count can pass the
split returns all of them, or nothing if they are more than the limit.  No
difference on the way falls below zero, the size of no range wraps and no more
values than the limit are held.  Nor does a count wrap while loops are expanded. -/
theorem counts_in_range :
    (∀ delimiter t, ∃ lists, List.Forall₂ Text.StandsFor (Text.pieces delimiter t) lists) ∧
    (∀ delimiter t lists limit, List.Forall₂ Text.StandsFor (Text.pieces delimiter t) lists →
      limit < Text.countLimit - 1 →
      Text.splitWithin limit delimiter t =
          (if lists.flatten.length ≤ limit then some lists.flatten else none) ∧
        Text.splitHolding limit (Text.pieces delimiter t) [] =
          .ok (Text.splitWithin limit delimiter t)) ∧
    ∀ (c : Context) (item : Combination),
      c.expandCounting item.text 0 [item] = unchecked (c.expandLoops item) := by
  refine ⟨fun delimiter t => ⟨_, Text.forall₂_standsFor_iff.2 rfl⟩, ?_, fun c item => ?_⟩
  · intro delimiter t lists limit hlists hlimit
    have hlist : lists.flatten = Text.valueList delimiter t := by
      rw [← Text.forall₂_standsFor_iff.1 hlists, Text.valueList, List.flatMap_def]
    rw [hlist]
    refine ⟨Text.splitWithin_eq hlimit delimiter t, ?_⟩
    have hempty : ([] : List Text).length ≤ limit := Nat.zero_le limit
    rw [Text.splitHolding_eq hlimit hempty]
    simp [Text.splitWithin]
  · exact expandCounting_eq (Nat.zero_le loopBudget)

/-- A range, a plain value and a range without numbers, within the smallest limit
that is enough, one less, and the largest. -/
theorem counts_in_range_mixed :
    let t := "(3:4, x ,2:1)".toList
    let lists := [["3".toList, "4".toList], ["x".toList], []]
    List.Forall₂ Text.StandsFor (Text.pieces ',' t) lists ∧
      Text.splitWithin 3 ',' t = some lists.flatten ∧
      Text.splitHolding 3 (Text.pieces ',' t) [] = .ok (some lists.flatten) ∧
      Text.splitHolding 2 (Text.pieces ',' t) [] = .ok none ∧
      Text.splitWithin (Text.countLimit - 2) ',' t = some lists.flatten := by
  intro t lists
  obtain ⟨_, hsplit, _⟩ := counts_in_range
  have hlists : List.Forall₂ Text.StandsFor (Text.pieces ',' t) lists :=
    Text.forall₂_standsFor_iff.2 rfl
  obtain ⟨hthree, hholding⟩ := hsplit ',' t lists 3 hlists (by decide)
  obtain ⟨htwo, hless⟩ := hsplit ',' t lists 2 hlists (by decide)
  obtain ⟨hlargest, _⟩ := hsplit ',' t lists (Text.countLimit - 2) hlists (by decide)
  refine ⟨hlists, hthree, hholding.trans (congrArg _ hthree), hless.trans (congrArg _ htwo), ?_⟩
  rw [hlargest, if_pos (by decide)]

end Context

end Wcl
