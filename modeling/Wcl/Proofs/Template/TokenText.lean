import Mathlib.Data.List.Infix
import Wcl.Proofs.Template.Spelling

/-!
# Texts of tokens

`SpelledBy P t` says that every dollar sign of `t` begins a spelling of the class
`P`.  Such a text is built of plain characters and those spellings
(`SpelledBy.induction`), and stays one when others are put for them
(`SpelledBy.replaceAll`).

`TokensOnly uses t` is the case of whole tokens, none inside another, for some of
the uses that a token can have: the four forms of substitution and loops.  A
search finds no token for a use that is not among them, and when it finds none
for one that is, the text has tokens for the others only
(`TokensOnly.without`).
-/

namespace Wcl

/-- Every dollar sign of a text begins a spelling of a class. -/
def SpelledBy (P : Text → Prop) (t : Text) : Prop :=
  ∀ r, '$' :: r <:+ t → ∃ s, IsSpelling s ∧ P s ∧ s <+: '$' :: r

namespace SpelledBy

variable {P : Text → Prop} {s t t' : Text}

theorem of_suffix (h : SpelledBy P t) (hs : t' <:+ t) : SpelledBy P t' :=
  fun r hr => h r (hr.trans hs)

protected theorem nil : SpelledBy P [] := by
  intro r hr
  cases List.suffix_nil.1 hr

protected theorem char {ch : Char} (hch : ch ≠ '$') (h : SpelledBy P t) :
    SpelledBy P (ch :: t) := by
  intro r hr
  rcases List.suffix_cons_iff.1 hr with he | hr
  · exact absurd (List.cons.inj he).1.symm hch
  · exact h r hr

theorem of_notMem_append {p : Text} (hp : '$' ∉ p) (h : SpelledBy P t) :
    SpelledBy P (p ++ t) := by
  induction p with
  | nil => exact h
  | cons ch p ih =>
    obtain ⟨hch, hp⟩ := not_or.1 (mt List.mem_cons.2 hp)
    exact .char (Ne.symm hch) (ih hp)

theorem of_notMem (ht : '$' ∉ t) : SpelledBy P t := by
  have h : SpelledBy P (t ++ []) := .of_notMem_append ht .nil
  rwa [List.append_nil] at h

protected theorem spelling (hs : IsSpelling s) (hP : P s) (h : SpelledBy P t) :
    SpelledBy P (s ++ t) := by
  obtain ⟨r, rfl, hd⟩ := hs.exists_cons
  have hrest := h.of_notMem_append hd
  intro r' hr'
  rw [List.cons_append] at hr'
  rcases List.suffix_cons_iff.1 hr' with he | hsuffix
  · exact ⟨_, hs, hP, t, by rw [he, List.cons_append]⟩
  · exact hrest r' hsuffix

/-- Such a text is built of plain characters and spellings of the class. -/
@[elab_as_elim]
theorem induction {motive : (t : Text) → SpelledBy P t → Prop} (nil : motive [] .nil)
    (char : ∀ (ch : Char) (t : Text) (hch : ch ≠ '$') (h : SpelledBy P t), motive t h →
      motive (ch :: t) (.char hch h))
    (spelling : ∀ (s t : Text) (hs : IsSpelling s) (hP : P s) (h : SpelledBy P t), motive t h →
      motive (s ++ t) (.spelling hs hP h))
    (t : Text) (h : SpelledBy P t) : motive t h := by
  match t, h with
  | [], _ => exact nil
  | ch :: r, h =>
    by_cases hch : ch = '$'
    · subst hch
      obtain ⟨s, hs, hP, t', ht'⟩ := h r List.suffix_rfl
      have hlen : t'.length < ('$' :: r).length := by
        rw [← ht', List.length_append]
        have hpos := List.length_pos_iff.2 hs.ne_nil
        omega
      have h' : SpelledBy P t' := h.of_suffix ⟨s, ht'⟩
      have hm := spelling s t' hs hP h' (induction nil char spelling t' h')
      revert hm
      simp only [ht']
      exact id
    · have h' := h.of_suffix (List.suffix_cons ch r)
      exact char ch r hch h' (induction nil char spelling r h')
termination_by t.length
decreasing_by all_goals simp_all

theorem append (h : SpelledBy P t) (h' : SpelledBy P t') : SpelledBy P (t ++ t') := by
  induction t, h using induction with
  | nil => exact h'
  | char ch t hch _ ih => exact .char hch ih
  | spelling s t hs hP _ ih =>
    rw [List.append_assoc]
    exact .spelling hs hP ih

/-- Putting such a text for a spelling keeps such a text. -/
theorem replaceAll {v : Text} (h : SpelledBy P t) (hs : IsSpelling s) (hv : SpelledBy P v) :
    SpelledBy P (Text.replaceAll s v t) := by
  induction t, h using induction with
  | nil => exact .nil
  | char ch t hch _ ih =>
    rw [Text.replaceAll_cons_of_ne hs hch]
    exact .char hch ih
  | spelling s' t hs' hP _ ih =>
    by_cases he : s = s'
    · subst he
      rw [Text.replaceAll_append hs.ne_nil]
      exact hv.append ih
    · rw [Text.replaceAll_of_ne hs hs' he]
      exact .spelling hs' hP ih

end SpelledBy

/-! ### Uses of tokens -/

/-- What a token is for. -/
inductive Use
  | form (form : Form)
  | loop
  deriving DecidableEq, Repr

/-- The tokens for a use. -/
def Use.kind : Use → TokenKind
  | .form f => f.kind
  | .loop => loopKind

/-- All that a token can be for. -/
def Use.all : List Use :=
  [.form .header, .form .optional, .form .required, .form .function, .loop]

theorem Use.mem_all (use : Use) : use ∈ all := by
  cases use with
  | form f => cases f <;> decide
  | loop => decide

theorem Use.head?_opener (use : Use) : use.kind.opener.head? = some '$' := by
  cases use with
  | form f => cases f <;> rfl
  | loop => rfl

/-- The character behind the dollar sign of an opener. -/
def Use.second (use : Use) : Char := use.kind.opener.getD 1 ' '

/-- The character behind the dollar sign tells the use. -/
theorem Use.eq_of_second {use use' : Use} (h : use.second.toLower = use'.second.toLower) :
    use = use' := by
  have hall : ∀ u ∈ all, ∀ u' ∈ all, u.second.toLower = u'.second.toLower → u = u' := by
    decide
  exact hall _ use.mem_all _ use'.mem_all h

/-- An opener, in any letter case, begins with a dollar sign and the character
that tells the use, and no other sign of a token is in it. -/
theorem Use.exists_of_opener {use : Use} {w : Text}
    (h : w.map Char.toLower = use.kind.opener.map Char.toLower) :
    ∃ c r, w = '$' :: c :: r ∧ c.toLower = use.second.toLower ∧ '$' ∉ c :: r ∧ '}' ∉ c :: r := by
  obtain ⟨x, os, hopener, hdollar, hbrace⟩ : ∃ x os, use.kind.opener = '$' :: x :: os ∧
      '$' ∉ (x :: os).map Char.toLower ∧ '}' ∉ (x :: os).map Char.toLower := by
    cases use with
    | form f => cases f <;> exact ⟨_, _, rfl, by decide, by decide⟩
    | loop => exact ⟨_, _, rfl, by decide, by decide⟩
  have hx : use.second = x := by
    rw [second, hopener]
    rfl
  rw [hopener] at h
  obtain ⟨a, rest, rfl, ha, hrest⟩ := List.map_eq_cons_iff.1 h
  obtain ⟨c, r, rfl, hc, _⟩ := List.map_eq_cons_iff.1 hrest
  obtain rfl : a = '$' := Token.eq_dollar_of_toLower ha
  -- A sign in the writing would be in the opener of the use as well.
  have hsign : ∀ y : Char, y.toLower = y → y ∉ (x :: os).map Char.toLower → y ∉ c :: r := by
    intro y hlow hy hm
    refine hy ?_
    rw [← hrest, ← hlow]
    exact List.mem_map_of_mem hm
  exact ⟨c, r, rfl, hx.symm ▸ hc, hsign _ rfl hdollar, hsign _ rfl hbrace⟩

/-- What a search finds begins with a dollar sign. -/
theorem Use.head?_spelling (use : Use) {t : Text} {token : Token}
    (h : Token.first? use.kind t = some token) : token.spelling.head? = some '$' := by
  induction t with
  | nil => cases h
  | cons ch r ih =>
    rw [Token.first?, Option.or_eq_some_iff] at h
    rcases h with hat | ⟨_, hrest⟩
    · obtain ⟨w, _, hw, hspelling, _⟩ := Token.exists_of_at? hat
      obtain ⟨c, r, rfl, _⟩ := exists_of_opener hw
      rw [hspelling]
      rfl
    · exact ih hrest

/-- An opener at the start of a text tells the use. -/
theorem Use.eq_of_afterOpener? {use use' : Use} {t : Text}
    (h : (Token.afterOpener? use.kind.opener t).isSome)
    (h' : (Token.afterOpener? use'.kind.opener t).isSome) : use = use' := by
  have hshape : ∀ u : Use, (Token.afterOpener? u.kind.opener t).isSome →
      ∃ a b r, t = a :: b :: r ∧ b.toLower = u.second.toLower := by
    intro u hu
    obtain ⟨r, hr⟩ := Option.isSome_iff_exists.1 hu
    obtain ⟨w, hw, rfl⟩ := Token.exists_of_afterOpener? hr
    obtain ⟨b, rest, rfl, hb, _⟩ := exists_of_opener hw
    exact ⟨'$', b, rest ++ r, rfl, hb⟩
  obtain ⟨a, b, r, rfl, hb⟩ := hshape use h
  obtain ⟨a', b', r', ht, hb'⟩ := hshape use' h'
  cases ht
  exact eq_of_second (hb.symm.trans hb')

/-- No token begins with the opener of another use. -/
theorem Use.at?_of_ne {use use' : Use} {t : Text}
    (h : (Token.afterOpener? use.kind.opener t).isSome) (hne : use' ≠ use) :
    Token.at? use'.kind t = none := by
  cases ho : Token.afterOpener? use'.kind.opener t with
  | none => rw [Token.at?, ho]
  | some r => exact absurd (Use.eq_of_afterOpener? (by rw [ho]; rfl) h) hne

/-- A token for a use, with no other one inside. -/
structure IsToken (use : Use) (token : Token) : Prop where
  ne_nil : token.body ≠ []
  dollar : '$' ∉ token.body
  brace : '}' ∉ token.body
  spelled : ∃ opener, opener.map Char.toLower = use.kind.opener.map Char.toLower ∧
    token.spelling = opener ++ (token.body ++ ['}'])

namespace IsToken

variable {use use' : Use} {token token' : Token}

theorem isSpelling (h : IsToken use token) : IsSpelling token.spelling := by
  obtain ⟨opener, ho, hspelling⟩ := h.spelled
  obtain ⟨c, r, rfl, _, hdollar, hbrace⟩ := Use.exists_of_opener ho
  refine ⟨c :: r ++ token.body, by rw [hspelling]; simp, ?_, ?_⟩
  · exact fun hm => (List.mem_append.1 hm).elim hdollar h.dollar
  · exact fun hm => (List.mem_append.1 hm).elim hbrace h.brace

theorem at?_eq (h : IsToken use token) (t : Text) :
    Token.at? use.kind (token.spelling ++ t) = some token := by
  obtain ⟨opener, ho, hspelling⟩ := h.spelled
  have hin : ∀ c ∈ token.body, use.kind.inBody c = true := by
    intro c hc
    have hdollar : c ≠ '$' := fun he => h.dollar (he ▸ hc)
    have hbrace : c ≠ '}' := fun he => h.brace (he ▸ hc)
    cases use with
    | form f => simp [Use.kind, Form.kind, hdollar, hbrace]
    | loop => simp [Use.kind, loopKind, hbrace]
  have hend : use.kind.inBody '}' = false := by
    cases use with
    | form f => simp [Use.kind, Form.kind]
    | loop => rfl
  rw [hspelling, Token.at?_append ho h.ne_nil hin hend, ← hspelling]

theorem at?_of_ne (h : IsToken use token) (hne : use' ≠ use) (t : Text) :
    Token.at? use'.kind (token.spelling ++ t) = none := by
  obtain ⟨opener, ho, hspelling⟩ := h.spelled
  have hopens : (Token.afterOpener? use.kind.opener (token.spelling ++ t)).isSome := by
    rw [hspelling, List.append_assoc, Token.afterOpener?_append ho]
    rfl
  exact Use.at?_of_ne hopens hne

theorem first?_eq (h : IsToken use token) (t : Text) :
    Token.first? use.kind (token.spelling ++ t) = some token := by
  rw [Token.first?_append use.head?_opener h.isSpelling, h.at?_eq, Option.some_or]

/-- The search for another use passes over a token. -/
theorem first?_of_ne (h : IsToken use token) (hne : use' ≠ use) (t : Text) :
    Token.first? use'.kind (token.spelling ++ t) = Token.first? use'.kind t := by
  rw [Token.first?_append use'.head?_opener h.isSpelling, h.at?_of_ne hne, Option.none_or]

/-- A spelling tells the use and the body. -/
theorem unique (h : IsToken use token) (h' : IsToken use' token')
    (he : token.spelling = token'.spelling) : use = use' ∧ token = token' := by
  have hat := h'.at?_eq []
  rw [← he] at hat
  by_cases huse : use' = use
  · subst huse
    rw [h.at?_eq] at hat
    exact ⟨rfl, Option.some.inj hat⟩
  · rw [h.at?_of_ne huse] at hat
    cases hat

end IsToken

/-- What is found at a place is a token, if no other one begins inside. -/
theorem isToken_of_at? {use : Use} {t : Text} {token : Token}
    (h : Token.at? use.kind t = some token) (hdollar : '$' ∉ token.body) : IsToken use token := by
  obtain ⟨opener, r, ho, hspelling, hne, hin, _⟩ := Token.exists_of_at? h
  have hbrace : '}' ∉ token.body := by
    intro hm
    have hbody := hin _ hm
    cases use with
    | form f => simp [Use.kind, Form.kind] at hbody
    | loop => cases hbody
  exact ⟨hne, hdollar, hbrace, opener, ho, hspelling⟩

/-- What the search for a form finds is a token that stands in the text. -/
theorem Form.isToken_of_first? {form : Form} {t : Text} {token : Token}
    (h : Token.first? form.kind t = some token) :
    IsToken (.form form) token ∧ token.spelling <:+: t := by
  obtain ⟨t', hsuffix, hat⟩ := Token.exists_suffix_of_first? h
  obtain ⟨_, r, _, _, _, hin, rfl⟩ := Token.exists_of_at? hat
  have hdollar : '$' ∉ token.body := fun hm => by simpa [Form.kind] using hin _ hm
  have htoken : IsToken (.form form) token := isToken_of_at? hat hdollar
  exact ⟨htoken, (List.prefix_append _ r).isInfix.trans hsuffix.isInfix⟩

/-- The search finds something where a token stands. -/
theorem IsToken.first?_ne_none {use : Use} {token : Token} (h : IsToken use token) {t : Text}
    (hin : token.spelling <:+: t) : Token.first? use.kind t ≠ none := by
  obtain ⟨p, q, rfl⟩ := hin
  rw [List.append_assoc]
  exact Token.first?_ne_none (List.suffix_append _ _) (h.at?_eq q)

/-! ### Texts of tokens -/

/-- Every dollar sign of a text begins a token for one of some uses, with no
other token inside. -/
def TokensOnly (uses : List Use) : Text → Prop :=
  SpelledBy fun s => ∃ use ∈ uses, ∃ body, IsToken use ⟨s, body⟩

/-- Whether a text begins with a token for one of some uses. -/
def beginsToken (uses : List Use) (t : Text) : Bool :=
  uses.any fun use => (Token.at? use.kind t).any fun token => !token.body.contains '$'

theorem beginsToken_iff {uses : List Use} {t : Text} : beginsToken uses t = true ↔
    ∃ use ∈ uses, ∃ token, IsToken use token ∧ token.spelling <+: t := by
  simp only [beginsToken, List.any_eq_true, Option.any_eq_true, Bool.not_eq_true',
    List.contains_eq_mem, decide_eq_false_iff_not]
  constructor
  · rintro ⟨use, huse, token, hat, hdollar⟩
    obtain ⟨_, r, _, _, _, _, ht⟩ := Token.exists_of_at? hat
    exact ⟨use, huse, token, isToken_of_at? hat hdollar, r, ht.symm⟩
  · rintro ⟨use, huse, token, htoken, r, rfl⟩
    exact ⟨use, huse, token, htoken.at?_eq r, htoken.dollar⟩

instance (uses : List Use) (t : Text) : Decidable (TokensOnly uses t) :=
  decidable_of_iff (∀ r ∈ t.tails, r.head? = some '$' → beginsToken uses r = true) <| by
    constructor
    · intro h r hr
      obtain ⟨use, huse, token, htoken, hfront⟩ :=
        beginsToken_iff.1 (h _ ((List.mem_tails _ _).2 hr) rfl)
      exact ⟨_, htoken.isSpelling, ⟨use, huse, _, htoken⟩, hfront⟩
    · rintro h (_ | ⟨c, r⟩) hr hc
      · cases hc
      · cases hc
        obtain ⟨s, _, ⟨use, huse, body, htoken⟩, hfront⟩ := h r ((List.mem_tails _ _).1 hr)
        exact beginsToken_iff.2 ⟨use, huse, _, htoken, hfront⟩

namespace TokensOnly

variable {uses : List Use} {t : Text} {token : Token}

/-- What the search finds is a token for one of the uses. -/
theorem isToken_of_first? (h : TokensOnly uses t) (use : Use)
    (hf : Token.first? use.kind t = some token) : IsToken use token ∧ use ∈ uses := by
  induction t, h using SpelledBy.induction with
  | nil => cases hf
  | char ch t hch _ ih =>
    rw [Token.first?_cons_of_ne use.head?_opener hch] at hf
    exact ih hf
  | spelling s t _ hs _ ih =>
    obtain ⟨use', huse', body, htoken⟩ := hs
    by_cases he : use = use'
    · subst he
      have hfirst := htoken.first?_eq t
      rw [hf] at hfirst
      cases hfirst
      exact ⟨htoken, huse'⟩
    · exact ih ((htoken.first?_of_ne he t).symm.trans hf)

theorem first?_eq_none (h : TokensOnly uses t) {use : Use} (huse : use ∉ uses) :
    Token.first? use.kind t = none := by
  cases hf : Token.first? use.kind t with
  | none => rfl
  | some token => exact absurd (h.isToken_of_first? use hf).2 huse

/-- A text without tokens for a use has tokens for the others only. -/
theorem without (h : TokensOnly uses t) (use : Use) (hf : Token.first? use.kind t = none) :
    TokensOnly (uses.filter (· ≠ use)) t := by
  induction t, h using SpelledBy.induction with
  | nil => exact .nil
  | char ch t hch _ ih =>
    rw [Token.first?_cons_of_ne use.head?_opener hch] at hf
    exact .char hch (ih hf)
  | spelling s t hs hP _ ih =>
    obtain ⟨use', huse', body, htoken⟩ := hP
    by_cases he : use = use'
    · subst he
      have hfirst := htoken.first?_eq t
      rw [hf] at hfirst
      cases hfirst
    · have hmem : use' ∈ uses.filter (· ≠ use) :=
        List.mem_filter.2 ⟨huse', decide_eq_true (Ne.symm he)⟩
      exact .spelling hs ⟨use', hmem, body, htoken⟩
        (ih ((htoken.first?_of_ne he t).symm.trans hf))

end TokensOnly

end Wcl
