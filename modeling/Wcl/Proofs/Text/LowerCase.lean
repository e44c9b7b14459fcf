import Mathlib.Data.List.Basic
import Wcl.Text.LowerCase

/-!
# Laws of lower case

A text in lower case stays as it is (`lowerCase_lowerCase`).  Blanks and the
signs of the markup are the lower case of nothing else, so they stand where they
stood: `mem_of_mem_lowerFrom` and `prefix_of_prefix_lowerFrom`.

What the mapping of single characters must have for that is read off the rows of
the table.
-/

namespace Wcl.Text

/-- A blank or a sign of the markup. -/
def isSign (c : Char) : Bool :=
  isBlank c || c == '#' || c == '=' || c == '<' || c == '>' || c == '/'

/-! ### The table -/

/-- No row maps a number from `lo` to `hi`, of the parity of `lo` if they are in
steps of two.  The rows are ascending. -/
def unmapped (inSteps : Bool) (lo hi : Nat) : CaseRows → Bool
  | [] => true
  | (first, last, step, _) :: rest =>
    bif Nat.blt last lo then unmapped inSteps lo hi rest
    else bif Nat.blt hi first then true
    else (inSteps && Nat.beq step 2 && Nat.beq ((lo + first) % 2) 1) &&
      unmapped inSteps lo hi rest

theorem image?_of_unmapped {inSteps : Bool} {lo hi n : Nat} {rows : CaseRows}
    (h : unmapped inSteps lo hi rows = true) (hlo : lo ≤ n) (hhi : n ≤ hi)
    (hstep : inSteps = true → (n - lo) % 2 = 0) : rows.image? n = none := by
  induction rows with
  | nil => rfl
  | cons row rest ih =>
    obtain ⟨first, last, step, image⟩ := row
    rw [unmapped] at h
    rw [CaseRows.image?]
    by_cases hfirst : n < first
    · rw [if_pos hfirst]
    rw [if_neg hfirst]
    cases hlast : Nat.blt last lo with
    | true =>
      rw [hlast] at h
      have hlast : last < lo := Nat.blt_eq.mp hlast
      rw [if_neg (by omega), ih h]
    | false =>
      have hhigh : Nat.blt hi first = false :=
        eq_false_of_ne_true fun hlt => hfirst (Nat.lt_of_le_of_lt hhi (Nat.blt_eq.mp hlt))
      simp only [hlast, hhigh, cond_false, Bool.and_eq_true, Nat.beq_eq] at h
      obtain ⟨⟨⟨hsteps, rfl⟩, hparity⟩, hrest⟩ := h
      have heven := hstep hsteps
      split
      · rw [if_neg (by omega)]
      · exact ih hrest

/-- The row that a number is mapped by. -/
theorem exists_row_of_image? {rows : CaseRows} {n m : Nat} (h : rows.image? n = some m) :
    ∃ first last step image, (first, last, step, image) ∈ rows ∧ first ≤ n ∧ n ≤ last ∧
      (n - first) % step = 0 ∧ m = image + (n - first) := by
  induction rows with
  | nil => cases h
  | cons row rest ih =>
    obtain ⟨first, last, step, image⟩ := row
    rw [CaseRows.image?] at h
    split at h
    · cases h
    · next hfirst =>
      split at h
      · next hlast =>
        split at h
        · next hmod =>
          cases h
          exact ⟨first, last, step, image, List.mem_cons_self .., Nat.le_of_not_lt hfirst, hlast,
            hmod, rfl⟩
        · cases h
      · obtain ⟨first, last, step, image, hrow, hrest⟩ := ih h
        exact ⟨first, last, step, image, List.mem_cons_of_mem _ hrow, hrest⟩

theorem all_rows_unmapped :
    lowerRows.all (fun (first, last, step, image) =>
      unmapped (Nat.beq step 2 || Nat.beq first last) image (image + (last - first)) lowerRows)
      = true := by
  decide +kernel

/-- What a number is mapped to is not mapped. -/
theorem image?_image {n m : Nat} (h : lowerRows.image? n = some m) :
    lowerRows.image? m = none := by
  obtain ⟨first, last, step, image, hrow, hfirst, hlast, hmod, rfl⟩ := exists_row_of_image? h
  have hall := List.all_eq_true.1 all_rows_unmapped _ hrow
  refine image?_of_unmapped hall (by omega) (by omega) fun hsteps => ?_
  rcases Bool.or_eq_true_iff.1 hsteps with hstep | hone
  · obtain rfl := Nat.eq_of_beq_eq_true hstep
    omega
  · obtain rfl := Nat.eq_of_beq_eq_true hone
    omega

/-- The numbers of the blanks and signs and of the dotted capital I, in ranges. -/
def signRanges : List (Nat × Nat) :=
  [(9, 13), (0x20, 0x20), (0x23, 0x23), (0x2F, 0x2F), (0x3C, 0x3E), (0x85, 0x85), (0xA0, 0xA0),
    (0x130, 0x130), (0x1680, 0x1680), (0x2000, 0x200A), (0x2028, 0x2029), (0x202F, 0x202F),
    (0x205F, 0x205F), (0x3000, 0x3000)]

theorem exists_signRange {c : Char} (h : isSign c = true) :
    ∃ range ∈ signRanges, range.1 ≤ c.toNat ∧ c.toNat ≤ range.2 := by
  have hranges : signRanges.any (fun range => range.1 ≤ c.toNat && c.toNat ≤ range.2) = true := by
    simp only [isSign, Bool.or_eq_true, beq_iff_eq] at h
    rcases h with ((((h | rfl) | rfl) | rfl) | rfl) | rfl
    · simp only [isBlank, Bool.or_eq_true, Bool.and_eq_true, decide_eq_true_eq, beq_iff_eq] at h
      simp only [signRanges, List.any_cons, List.any_nil, Bool.or_eq_true, Bool.and_eq_true,
        decide_eq_true_eq]
      omega
    all_goals decide
  obtain ⟨range, hrange, hin⟩ := List.any_eq_true.1 hranges
  exact ⟨range, hrange, by simpa using hin⟩

/-- Rows map to numbers of characters that are no signs. -/
theorem all_rows_avoid :
    lowerRows.all (fun (first, last, _, image) =>
      (Nat.blt (image + (last - first)) 0xD800 ||
        (Nat.blt 0xDFFF image && Nat.blt (image + (last - first)) 0x110000)) &&
      signRanges.all fun (lo, hi) => Nat.blt (image + (last - first)) lo || Nat.blt hi image)
      = true := by
  decide +kernel

theorem image_avoids {n m : Nat} (h : lowerRows.image? n = some m) :
    (Char.ofNat m).toNat = m ∧ ∀ range ∈ signRanges, m < range.1 ∨ range.2 < m := by
  obtain ⟨first, last, step, image, hrow, hfirst, hlast, _, rfl⟩ := exists_row_of_image? h
  have hall := List.all_eq_true.1 all_rows_avoid _ hrow
  simp only [Bool.and_eq_true, Bool.or_eq_true, Nat.blt_eq, List.all_eq_true] at hall
  obtain ⟨hvalid, havoid⟩ := hall
  refine ⟨?_, fun range hrange => ?_⟩
  · have hchar : (image + (n - first)).isValidChar := by
      rcases hvalid with hlow | ⟨hhigh, hmax⟩
      · exact .inl (by omega)
      · exact .inr ⟨by omega, by omega⟩
    rw [Char.ofNat, dif_pos hchar]
    rfl
  · have hrange := havoid range hrange
    omega

/-! ### Characters -/

/-- A character that lower case leaves alone, wherever it stands. -/
def Lowered (c : Char) : Prop := lowerChar c = [c] ∧ c ≠ 'Σ'

theorem lowerChar_cases (c : Char) :
    (c = 'İ' ∧ lowerChar c = ['i', Char.ofNat 0x307]) ∨
      (∃ n, lowerRows.image? c.toNat = some n ∧ lowerChar c = [Char.ofNat n]) ∨
      (c ≠ 'İ' ∧ lowerRows.image? c.toNat = none ∧ lowerChar c = [c]) := by
  by_cases hc : c = 'İ'
  · exact .inl ⟨hc, if_pos hc⟩
  · cases himage : lowerRows.image? c.toNat with
    | some n => exact .inr (.inl ⟨n, rfl, by rw [lowerChar, if_neg hc, himage]⟩)
    | none => exact .inr (.inr ⟨hc, rfl, by rw [lowerChar, if_neg hc, himage]⟩)

theorem lowered_of_mem_lowerChar {c d : Char} (h : d ∈ lowerChar c) : Lowered d := by
  have hsigma : lowerRows.image? 'Σ'.toNat = some 'σ'.toNat := by decide +kernel
  rcases lowerChar_cases c with ⟨_, hc⟩ | ⟨n, hn, hc⟩ | ⟨hne, hn, hc⟩
  · rw [hc] at h
    rcases List.mem_pair.1 h with rfl | rfl
    · exact ⟨by decide +kernel, by decide⟩
    · exact ⟨by decide +kernel, by decide⟩
  · rw [hc] at h
    obtain rfl := List.mem_singleton.1 h
    obtain ⟨hnat, havoid⟩ := image_avoids hn
    have hdotted : Char.ofNat n ≠ 'İ' := by
      intro he
      rw [he] at hnat
      have hrange := havoid (0x130, 0x130) (by decide)
      rw [← hnat] at hrange
      revert hrange
      decide
    have hnone := image?_image hn
    refine ⟨?_, fun he => ?_⟩
    · rw [lowerChar, if_neg hdotted, hnat, hnone]
    · rw [← hnat, he, hsigma] at hnone
      cases hnone
  · rw [hc] at h
    obtain rfl := List.mem_singleton.1 h
    refine ⟨hc, ?_⟩
    rintro rfl
    rw [hsigma] at hn
    cases hn

/-- A sign is the lower case of itself alone. -/
theorem eq_of_isSign {c d : Char} (h : d ∈ lowerChar c) (hd : isSign d = true) :
    c = d ∧ lowerChar c = [c] := by
  rcases lowerChar_cases c with ⟨_, hc⟩ | ⟨n, hn, hc⟩ | ⟨_, _, hc⟩
  · rw [hc] at h
    rcases List.mem_pair.1 h with rfl | rfl
    · exact absurd hd (by decide)
    · exact absurd hd (by decide)
  · rw [hc] at h
    obtain rfl := List.mem_singleton.1 h
    obtain ⟨hnat, havoid⟩ := image_avoids hn
    obtain ⟨range, hrange, hlo, hhi⟩ := exists_signRange hd
    rw [hnat] at hlo hhi
    have hout := havoid range hrange
    omega
  · rw [hc] at h
    exact ⟨(List.mem_singleton.1 h).symm, hc⟩

/-! ### Texts -/

/-- What stands for a character in a text in lower case. -/
theorem lowerFrom_cons (before : Text) (c : Char) (r : Text) :
    ∃ front, lowerFrom before (c :: r) = front ++ lowerFrom (c :: before) r ∧ front ≠ [] ∧
      ∀ d ∈ front, Lowered d ∧ (isSign d = true → c = d ∧ front = [c]) := by
  by_cases hfinal : c = 'Σ' ∧ meetsCased before ∧ ¬ meetsCased r
  · refine ⟨['ς'], by rw [lowerFrom, if_pos hfinal], List.cons_ne_nil _ _, ?_⟩
    intro d hd
    obtain rfl := List.mem_singleton.1 hd
    exact ⟨⟨by decide +kernel, by decide⟩, fun h => absurd h (by decide)⟩
  · refine ⟨lowerChar c, by rw [lowerFrom, if_neg hfinal], ?_, fun d hd =>
      ⟨lowered_of_mem_lowerChar hd, eq_of_isSign hd⟩⟩
    rcases lowerChar_cases c with ⟨_, hc⟩ | ⟨n, _, hc⟩ | ⟨_, _, hc⟩ <;> rw [hc] <;>
      exact List.cons_ne_nil _ _

variable {before s t : Text} {c d : Char}

theorem lowered_of_mem_lowerFrom (h : d ∈ lowerFrom before t) : Lowered d := by
  induction t generalizing before with
  | nil => exact absurd h List.not_mem_nil
  | cons c r ih =>
    obtain ⟨front, hfront, _, hall⟩ := lowerFrom_cons before c r
    rw [hfront] at h
    rcases List.mem_append.1 h with h | h
    · exact (hall d h).1
    · exact ih h

theorem lowerFrom_of_lowered (h : ∀ d ∈ t, Lowered d) : lowerFrom before t = t := by
  induction t generalizing before with
  | nil => rfl
  | cons c r ih =>
    obtain ⟨⟨hc, hsigma⟩, hr⟩ := List.forall_mem_cons.1 h
    rw [lowerFrom, if_neg fun h => hsigma h.1, hc, ih hr]
    rfl

/-- A text in lower case stays as it is. -/
theorem lowerCase_lowerCase (t : Text) : lowerCase (lowerCase t) = lowerCase t :=
  lowerFrom_of_lowered fun _ hd => lowered_of_mem_lowerFrom hd

theorem lowerFrom_eq_nil (h : lowerFrom before t = []) : t = [] := by
  cases t with
  | nil => rfl
  | cons c r =>
    obtain ⟨front, hfront, hne, _⟩ := lowerFrom_cons before c r
    rw [hfront] at h
    exact absurd (List.append_eq_nil_iff.1 h).1 hne

theorem mem_lowerFrom (hd : Lowered d) (h : d ∈ t) : d ∈ lowerFrom before t := by
  induction t generalizing before with
  | nil => exact absurd h List.not_mem_nil
  | cons c r ih =>
    rw [lowerFrom]
    rcases List.mem_cons.1 h with rfl | h
    · rw [if_neg fun hsigma => hd.2 hsigma.1, hd.1]
      exact List.mem_append_left _ (List.mem_singleton_self _)
    · exact List.mem_append_right _ (ih h)

/-- A sign in a text in lower case is in the text. -/
theorem mem_of_mem_lowerFrom (hd : isSign d = true) (h : d ∈ lowerFrom before t) : d ∈ t := by
  induction t generalizing before with
  | nil => exact absurd h List.not_mem_nil
  | cons c r ih =>
    obtain ⟨front, hfront, _, hall⟩ := lowerFrom_cons before c r
    rw [hfront] at h
    rcases List.mem_append.1 h with h | h
    · rw [((hall d h).2 hd).1]
      exact List.mem_cons_self ..
    · exact List.mem_cons_of_mem _ (ih h)

/-- Signs at the start of a text in lower case are at the start of the text. -/
theorem prefix_of_prefix_lowerFrom (hs : ∀ d ∈ s, isSign d = true) (h : s <+: lowerFrom before t) :
    s <+: t := by
  induction s generalizing before t with
  | nil => exact List.nil_prefix
  | cons d s ih =>
    obtain ⟨hd, hrest⟩ := List.forall_mem_cons.1 hs
    cases t with
    | nil => exact absurd (List.prefix_nil.1 h) (List.cons_ne_nil _ _)
    | cons c r =>
      obtain ⟨front, hfront, hne, hall⟩ := lowerFrom_cons before c r
      obtain ⟨x, xs, rfl⟩ := List.exists_cons_of_ne_nil hne
      rw [hfront, List.cons_append, List.cons_prefix_cons] at h
      obtain ⟨rfl, h⟩ := h
      obtain ⟨rfl, hone⟩ := (hall d (List.mem_cons_self ..)).2 hd
      obtain rfl : xs = [] := (List.cons.inj hone).2
      exact List.cons_prefix_cons.2 ⟨rfl, ih hrest h⟩

end Wcl.Text
