/-!
# Texts

A text is a list of characters, so that every function on texts is a function
on lists.  This file has the few operations that the rest of the library is
written in: trimming, splitting at a character, replacing every occurrence of
a text by another, and the order by code points.

`replaceAll` works from left to right and does not look into what it has put
in: `replaceAll_append` says that an occurrence at the front is exchanged and
the work goes on behind it, `replaceAll_cons` that any other character stays.
-/

namespace Wcl

/-- A text is its sequence of characters. -/
abbrev Text := List Char

/-- The characters that separate words: Unicode's property `White_Space`. -/
def isBlank (c : Char) : Bool :=
  let n := c.toNat
  (9 ≤ n && n ≤ 13) || n == 0x20 || n == 0x85 || n == 0xA0 || n == 0x1680
    || (0x2000 ≤ n && n ≤ 0x200A) || n == 0x2028 || n == 0x2029 || n == 0x202F
    || n == 0x205F || n == 0x3000

namespace Text

/-- The text without the blanks at its start. -/
def trimStart (t : Text) : Text := t.dropWhile isBlank

/-- The text without the blanks at its end. -/
def trimEnd (t : Text) : Text :=
  t.foldr (fun c r => if r.isEmpty && isBlank c then [] else c :: r) []

/-- The text without the blanks at either end. -/
def trim (t : Text) : Text := trimEnd (trimStart t)

/-- What follows `start` in a text that begins with it. -/
def afterStart? (start t : Text) : Option Text := start.isPrefixOf? t

/-- What comes before `ending` in a text that closes with it. -/
def beforeEnd? (ending t : Text) : Option Text :=
  if ending.isSuffixOf t then some (t.take (t.length - ending.length)) else none

/-- Everything up to the first `d`, and what follows that `d` if there is one. -/
def cutAt (d : Char) : Text → Text × Option Text
  | [] => ([], none)
  | c :: r => if c = d then ([], some r) else ((c :: (cutAt d r).1), (cutAt d r).2)

/-- The pieces between commas, without the blanks around them. -/
def commaPieces (t : Text) : List Text := (t.splitOn ',').map trim

/-- Puts `new` for every occurrence of `old`; the first `skip` characters
belong to an occurrence that has been dealt with. -/
def replaceFrom (old new : Text) : Nat → Text → Text
  | _, [] => []
  | skip + 1, _ :: r => replaceFrom old new skip r
  | 0, c :: r =>
    if old.isPrefixOf (c :: r) then new ++ replaceFrom old new (old.length - 1) r
    else c :: replaceFrom old new 0 r

/-- Puts `new` for every occurrence of the non-empty text `old`, from left to
right. -/
def replaceAll (old new t : Text) : Text := replaceFrom old new 0 t

theorem replaceFrom_eq_drop (old new : Text) (skip : Nat) (t : Text) :
    replaceFrom old new skip t = replaceAll old new (t.drop skip) := by
  induction t generalizing skip with
  | nil => cases skip <;> simp [replaceFrom, replaceAll]
  | cons c r ih =>
    cases skip with
    | zero => rfl
    | succ k => rw [replaceFrom, ih k, List.drop_succ_cons]

@[simp] theorem replaceAll_nil (old new : Text) : replaceAll old new [] = [] := rfl

theorem replaceAll_append {old : Text} (h : old ≠ []) (new t : Text) :
    replaceAll old new (old ++ t) = new ++ replaceAll old new t := by
  cases old with
  | nil => exact absurd rfl h
  | cons c r =>
    have hp : (c :: r).isPrefixOf (c :: r ++ t) = true :=
      List.isPrefixOf_iff_prefix.2 (List.prefix_append _ _)
    rw [replaceAll, List.cons_append, replaceFrom, ← List.cons_append, if_pos hp,
      replaceFrom_eq_drop]
    simp

theorem replaceAll_cons {old : Text} {c : Char} {t : Text}
    (h : old.isPrefixOf (c :: t) = false) (new : Text) :
    replaceAll old new (c :: t) = c :: replaceAll old new t := by
  rw [replaceAll, replaceFrom, if_neg (by simp [h])]
  rfl

/-- The order by code points, character by character; what a text begins with
comes before it. -/
def atMost : Text → Text → Bool
  | [], _ => true
  | _ :: _, [] => false
  | c :: r, d :: s => c.toNat < d.toNat || (c == d && atMost r s)

theorem atMost_refl (a : Text) : atMost a a = true := by
  induction a with
  | nil => rfl
  | cons c r ih => simp [atMost, ih]

theorem atMost_total (a b : Text) : (atMost a b || atMost b a) = true := by
  induction a generalizing b with
  | nil => rfl
  | cons c r ih =>
    cases b with
    | nil => rfl
    | cons d s =>
      have hrs := ih s
      rcases Nat.lt_trichotomy c.toNat d.toNat with h | h | h
      · simp [atMost, h]
      · have hcd : c = d := Char.toNat_inj.1 h
        subst hcd
        simpa [atMost] using hrs
      · simp [atMost, h]

theorem atMost_antisymm {a b : Text} (hab : atMost a b = true) (hba : atMost b a = true) :
    a = b := by
  induction a generalizing b with
  | nil =>
    cases b with
    | nil => rfl
    | cons d s => simp [atMost] at hba
  | cons c r ih =>
    cases b with
    | nil => simp [atMost] at hab
    | cons d s =>
      simp only [atMost, Bool.or_eq_true, decide_eq_true_eq, Bool.and_eq_true, beq_iff_eq]
        at hab hba
      rcases hab with h | ⟨rfl, h⟩
      · rcases hba with h' | ⟨rfl, _⟩
        · omega
        · omega
      · rcases hba with h' | ⟨_, h'⟩
        · omega
        · rw [ih h h']

theorem atMost_trans {a b c : Text} (hab : atMost a b = true) (hbc : atMost b c = true) :
    atMost a c = true := by
  induction a generalizing b c with
  | nil => rfl
  | cons x r ih =>
    cases b with
    | nil => simp [atMost] at hab
    | cons y s =>
      cases c with
      | nil => simp [atMost] at hbc
      | cons z t =>
        simp only [atMost, Bool.or_eq_true, decide_eq_true_eq, Bool.and_eq_true, beq_iff_eq]
          at hab hbc ⊢
        rcases hab with h | ⟨rfl, h⟩
        · rcases hbc with h' | ⟨rfl, _⟩
          · exact Or.inl (by omega)
          · exact Or.inl h
        · rcases hbc with h' | ⟨rfl, h'⟩
          · exact Or.inl h'
          · exact Or.inr ⟨rfl, ih h h'⟩

/-- Adds a text to a list in order, unless it is already there. -/
def addSorted (t : Text) : List Text → List Text
  | [] => [t]
  | u :: us => if t = u then u :: us else if atMost t u then t :: u :: us else u :: addSorted t us

end Text

end Wcl
