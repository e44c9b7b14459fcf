import Wcl.Template.Token

/-!
# Spellings of tokens

Tokens that begin with a dollar sign, end at the first closing brace and hold
neither sign in between.  Such spellings do not overlap: two of them that begin
at one place of a text are the same (`IsSpelling.append_inj`), and none begins
inside another.  So a text of plain characters and spellings is searched and
replaced piece by piece: `Token.first?_append` finds the leftmost token, and
`replaceAll_of_ne` leaves every other spelling alone.
-/

namespace Wcl

/-- A dollar sign, other characters, and a closing brace. -/
def IsSpelling (s : Text) : Prop := ∃ body, s = '$' :: (body ++ ['}']) ∧ '$' ∉ body ∧ '}' ∉ body

theorem IsSpelling.exists_cons {s : Text} (h : IsSpelling s) : ∃ r, s = '$' :: r ∧ '$' ∉ r := by
  obtain ⟨body, rfl, hd, _⟩ := h
  exact ⟨body ++ ['}'], rfl, by simp [hd]⟩

theorem IsSpelling.ne_nil {s : Text} (h : IsSpelling s) : s ≠ [] := by
  obtain ⟨r, rfl, _⟩ := h.exists_cons
  exact List.cons_ne_nil _ _

theorem append_brace_inj {a b r r' : Text} (ha : '}' ∉ a) (hb : '}' ∉ b)
    (h : a ++ '}' :: r = b ++ '}' :: r') : a = b ∧ r = r' := by
  induction a generalizing b with
  | nil =>
    cases b with
    | nil => exact ⟨rfl, (List.cons.inj h).2⟩
    | cons x b => exact absurd (List.mem_cons_self ..) ((List.cons.inj h).1 ▸ hb)
  | cons x a ih =>
    cases b with
    | nil => exact absurd (List.mem_cons_self ..) ((List.cons.inj h).1 ▸ ha)
    | cons y b =>
      obtain ⟨rfl, hrest⟩ := List.cons.inj h
      obtain ⟨rfl, rfl⟩ := ih (fun hm => ha (List.mem_cons_of_mem _ hm))
        (fun hm => hb (List.mem_cons_of_mem _ hm)) hrest
      exact ⟨rfl, rfl⟩

/-- Two spellings at the same place are the same. -/
theorem IsSpelling.append_inj {s s' r r' : Text} (h : IsSpelling s) (h' : IsSpelling s')
    (he : s ++ r = s' ++ r') : s = s' ∧ r = r' := by
  obtain ⟨a, rfl, _, ha⟩ := h
  obtain ⟨b, rfl, _, hb⟩ := h'
  simp only [List.cons_append, List.append_assoc, List.cons.injEq, true_and,
    List.nil_append] at he
  obtain ⟨rfl, rfl⟩ := append_brace_inj ha hb he
  exact ⟨rfl, rfl⟩

/-! ### Replacing -/

namespace Text

variable {s : Text}

/-- Replacing works through a text from left to right: behind a spelling, or
behind a character where none begins. -/
theorem replaceAll_induction (hs : s ≠ []) {motive : Text → Prop} (nil : motive [])
    (front : ∀ r, motive r → motive (s ++ r))
    (char : ∀ c r, ¬ s <+: c :: r → motive r → motive (c :: r)) (t : Text) : motive t := by
  induction hlen : t.length using Nat.strongRecOn generalizing t with
  | ind n ih =>
  subst hlen
  cases t with
  | nil => exact nil
  | cons c r =>
    by_cases hfront : s <+: c :: r
    · obtain ⟨r', hr'⟩ := hfront
      have hpos := List.length_pos_iff.2 hs
      have hshort : r'.length < (c :: r).length := by
        rw [← hr', List.length_append]
        omega
      exact hr' ▸ front r' (ih _ hshort r' rfl)
    · exact char c r hfront (ih _ (Nat.lt_succ_self r.length) r rfl)

theorem replaceAll_cons_of_unmatched {c : Char} {t : Text} (h : ¬ s <+: c :: t) (new : Text) :
    replaceAll s new (c :: t) = c :: replaceAll s new t :=
  replaceAll_cons (eq_false_of_ne_true (mt List.isPrefixOf_iff_prefix.1 h)) new

/-- Nothing is replaced where no dollar sign is, if one begins what is replaced. -/
theorem replaceAll_append_of_head (hs : s.head? = some '$') {p : Text} (hp : '$' ∉ p)
    (new t : Text) : replaceAll s new (p ++ t) = p ++ replaceAll s new t := by
  obtain ⟨r, rfl⟩ := List.head?_eq_some_iff.1 hs
  induction p with
  | nil => rfl
  | cons c p ih =>
    obtain ⟨hc, hp⟩ := not_or.1 (mt List.mem_cons.2 hp)
    rw [List.cons_append, replaceAll_cons (by simp [List.isPrefixOf, hc]), ih hp, List.cons_append]

theorem replaceAll_append_of_notMem (h : IsSpelling s) {p : Text} (hp : '$' ∉ p) (new t : Text) :
    replaceAll s new (p ++ t) = p ++ replaceAll s new t := by
  obtain ⟨r, rfl, _⟩ := h.exists_cons
  exact replaceAll_append_of_head rfl hp new t

theorem replaceAll_cons_of_ne (h : IsSpelling s) {c : Char} (hc : c ≠ '$') (new t : Text) :
    replaceAll s new (c :: t) = c :: replaceAll s new t :=
  replaceAll_append_of_notMem h (List.not_mem_cons_of_ne_of_not_mem hc.symm List.not_mem_nil) new t

/-- Another spelling is left alone. -/
theorem replaceAll_of_ne (h : IsSpelling s) {s' : Text} (h' : IsSpelling s') (hne : s ≠ s')
    (new t : Text) : replaceAll s new (s' ++ t) = s' ++ replaceAll s new t := by
  have hfront : ¬ s <+: s' ++ t := by
    rintro ⟨r, hr⟩
    exact hne (h.append_inj h' hr).1
  obtain ⟨r, rfl, hd⟩ := h'.exists_cons
  rw [List.cons_append, replaceAll_cons, replaceAll_append_of_notMem h hd, List.cons_append]
  rw [← List.cons_append]
  exact eq_false_of_ne_true (mt List.isPrefixOf_iff_prefix.1 hfront)

/-- What a text without dollar signs stands in front of is not begun in it. -/
theorem infix_of_append (h : IsSpelling s) {p t : Text} (hp : '$' ∉ p) (hin : s <:+: p ++ t) :
    s <:+: t := by
  obtain ⟨r, rfl, _⟩ := h.exists_cons
  induction p with
  | nil => exact hin
  | cons c p ih =>
    obtain ⟨hc, hp⟩ := not_or.1 (mt List.mem_cons.2 hp)
    rcases List.infix_cons_iff.1 hin with ⟨q, hq⟩ | hin
    · exact absurd (List.cons.inj hq).1 hc
    · exact ih hp hin

/-- A spelling stays where another one is replaced. -/
theorem infix_replaceAll_of_ne (h : IsSpelling s) {s' : Text} (h' : IsSpelling s') (hne : s ≠ s')
    (new : Text) {t : Text} (hin : s' <:+: t) : s' <:+: replaceAll s new t := by
  induction t using replaceAll_induction h.ne_nil with
  | nil => exact hin
  | front r ih =>
    obtain ⟨w, rfl, hw⟩ := h.exists_cons
    rw [replaceAll_append h.ne_nil]
    refine (ih ?_).trans (List.suffix_append new _).isInfix
    rcases List.infix_cons_iff.1 hin with ⟨q, hq⟩ | hin
    · exact absurd (h.append_inj h' hq.symm).1 hne
    · exact infix_of_append h' hw hin
  | char c r hfront ih =>
    rcases List.infix_cons_iff.1 hin with ⟨q, hq⟩ | hin
    · rw [← hq, replaceAll_of_ne h h' hne]
      exact (List.prefix_append s' _).isInfix
    · rw [replaceAll_cons_of_unmatched hfront]
      exact (ih hin).trans (List.suffix_cons c _).isInfix

/-- What is put for something stands in the text that comes of it. -/
theorem infix_replaceAll_self (hs : s ≠ []) (new : Text) {t : Text} (hin : s <:+: t) :
    new <:+: replaceAll s new t := by
  induction t using replaceAll_induction hs with
  | nil => exact absurd (List.infix_nil.1 hin) hs
  | front r _ =>
    rw [replaceAll_append hs]
    exact (List.prefix_append new _).isInfix
  | char c r hfront ih =>
    rw [replaceAll_cons_of_unmatched hfront]
    rcases List.infix_cons_iff.1 hin with hprefix | hin
    · exact absurd hprefix hfront
    · exact (ih hin).trans (List.suffix_cons c _).isInfix

end Text

/-! ### Finding -/

namespace Token

theorem eq_dollar_of_toLower {c : Char} (h : c.toLower = '$'.toLower) : c = '$' := by
  change c.toLower = '$' at h
  unfold Char.toLower at h
  split at h
  · next hu =>
    have hv := congrArg (fun c : Char => c.val.toNat) h
    simp only [UInt32.le_iff_toNat_le, UInt32.toNat_add] at hv hu
    simp at hv hu
    omega
  · exact h

theorem afterOpener?_append {opener w : Text} (h : w.map Char.toLower = opener.map Char.toLower)
    (t : Text) : afterOpener? opener (w ++ t) = some t := by
  induction opener generalizing w with
  | nil =>
    obtain rfl : w = [] := List.map_eq_nil_iff.1 h
    rfl
  | cons o os ih =>
    cases w with
    | nil => cases h
    | cons c w =>
      obtain ⟨hc, hw⟩ := List.cons.inj h
      rw [List.cons_append, afterOpener?, if_pos hc]
      exact ih hw

theorem exists_of_afterOpener? {opener t r : Text} (h : afterOpener? opener t = some r) :
    ∃ w, w.map Char.toLower = opener.map Char.toLower ∧ t = w ++ r := by
  induction opener generalizing t with
  | nil =>
    cases h
    exact ⟨[], rfl, rfl⟩
  | cons o os ih =>
    cases t with
    | nil => cases h
    | cons c t =>
      rw [afterOpener?] at h
      split at h
      · next hc =>
        obtain ⟨w, hw, rfl⟩ := ih h
        exact ⟨c :: w, by rw [List.map_cons, List.map_cons, hc, hw], rfl⟩
      · cases h

variable {kind : TokenKind}

/-- A token begins with the opener of its kind, in some letter case. -/
theorem exists_of_at? {t : Text} {token : Token} (h : at? kind t = some token) :
    ∃ w r, w.map Char.toLower = kind.opener.map Char.toLower ∧
      token.spelling = w ++ (token.body ++ ['}']) ∧ token.body ≠ [] ∧
      (∀ c ∈ token.body, kind.inBody c = true) ∧ t = token.spelling ++ r := by
  unfold at? at h
  split at h
  · cases h
  · next rest hrest =>
    obtain ⟨w, hw, rfl⟩ := exists_of_afterOpener? hrest
    have hlen : kind.opener.length = w.length := by
      simpa using (congrArg List.length hw).symm
    dsimp only at h
    split at h
    · next c cs r hbody hdrop =>
      rw [hlen, List.take_left] at h
      cases h
      refine ⟨w, r, hw, by simp, ?_, List.all_eq_true.1 List.all_takeWhile, ?_⟩
      · rw [hbody]
        exact List.cons_ne_nil _ _
      · dsimp only
        rw [List.append_assoc, List.append_assoc, List.singleton_append, ← hdrop,
          List.takeWhile_append_dropWhile]
    · cases h

/-- A token with an opener of its kind, in any letter case, is read. -/
theorem at?_append {w name : Text} (hw : w.map Char.toLower = kind.opener.map Char.toLower)
    (hne : name ≠ []) (hin : ∀ c ∈ name, kind.inBody c = true) (hbrace : kind.inBody '}' = false)
    (t : Text) : at? kind (w ++ (name ++ ['}']) ++ t) = some ⟨w ++ (name ++ ['}']), name⟩ := by
  have hlen : kind.opener.length = w.length := by
    simpa using (congrArg List.length hw).symm
  have hbody : (name ++ '}' :: t).takeWhile kind.inBody = name := by
    rw [List.takeWhile_append_of_pos hin]
    simp [hbrace]
  have hrest : (name ++ '}' :: t).dropWhile kind.inBody = '}' :: t := by
    rw [List.dropWhile_append_of_pos hin]
    simp [hbrace]
  have htext : w ++ (name ++ ['}']) ++ t = w ++ (name ++ '}' :: t) := by simp
  rw [htext, at?, afterOpener?_append hw]
  dsimp only
  rw [hbody, hrest, hlen, List.take_left]
  cases name with
  | nil => exact absurd rfl hne
  | cons c r => simp

theorem at?_cons_of_ne (hk : kind.opener.head? = some '$') {c : Char} (hc : c ≠ '$') (r : Text) :
    at? kind (c :: r) = none := by
  obtain ⟨os, hos⟩ : ∃ os, kind.opener = '$' :: os := by
    cases ho : kind.opener with
    | nil => rw [ho] at hk; cases hk
    | cons o os =>
      rw [ho] at hk
      exact ⟨os, congrArg (· :: os) (Option.some.inj hk)⟩
  rw [at?, hos, afterOpener?, if_neg fun h => hc (eq_dollar_of_toLower h)]

theorem first?_cons_of_ne (hk : kind.opener.head? = some '$') {c : Char} (hc : c ≠ '$')
    (r : Text) : first? kind (c :: r) = first? kind r := by
  rw [first?, at?_cons_of_ne hk hc, Option.none_or]

theorem first?_append_of_notMem (hk : kind.opener.head? = some '$') {p : Text} (hp : '$' ∉ p)
    (t : Text) : first? kind (p ++ t) = first? kind t := by
  induction p with
  | nil => rfl
  | cons c p ih =>
    obtain ⟨hc, hp⟩ := not_or.1 (mt List.mem_cons.2 hp)
    rw [List.cons_append, first?_cons_of_ne hk (Ne.symm hc), ih hp]

theorem first?_of_notMem (hk : kind.opener.head? = some '$') {t : Text} (ht : '$' ∉ t) :
    first? kind t = none := by
  have happ := first?_append_of_notMem hk ht []
  rwa [List.append_nil] at happ

/-- What is found stands at some place of the text. -/
theorem exists_suffix_of_first? {t : Text} {token : Token} (h : first? kind t = some token) :
    ∃ t', t' <:+ t ∧ at? kind t' = some token := by
  induction t with
  | nil => cases h
  | cons c r ih =>
    rw [first?, Option.or_eq_some_iff] at h
    rcases h with hat | ⟨_, hrest⟩
    · exact ⟨c :: r, List.suffix_rfl, hat⟩
    · obtain ⟨t', ht', hat⟩ := ih hrest
      exact ⟨t', ht'.trans (List.suffix_cons c r), hat⟩

/-- Where a token stands something is found. -/
theorem first?_ne_none {t t' : Text} (hs : t' <:+ t) {token : Token} (hat : at? kind t' = some token) :
    first? kind t ≠ none := by
  induction t with
  | nil =>
    obtain rfl := List.suffix_nil.1 hs
    obtain ⟨w, r, _, hspelling, _, _, ht⟩ := exists_of_at? hat
    simp [hspelling] at ht
  | cons c r ih =>
    rw [first?, Ne, Option.or_eq_none_iff]
    rintro ⟨hnone, hrest⟩
    rcases List.suffix_cons_iff.1 hs with rfl | hs
    · rw [hat] at hnone
      cases hnone
    · exact ih hs hrest

/-- Behind a spelling the search goes on with the rest. -/
theorem first?_append (hk : kind.opener.head? = some '$') {s : Text} (h : IsSpelling s)
    (t : Text) : first? kind (s ++ t) = (at? kind (s ++ t)).or (first? kind t) := by
  obtain ⟨r, rfl, hr⟩ := h.exists_cons
  rw [List.cons_append, first?, first?_append_of_notMem hk hr]

end Token

end Wcl
