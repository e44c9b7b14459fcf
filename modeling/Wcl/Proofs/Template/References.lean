import Wcl.Proofs.Template.TokenText

/-!
# Texts of references

A reference is a token of an optional or a required variable that has a plain
name.  `ReferencesOnly t` says that every dollar sign of `t` begins one.  Such a
text is built of plain characters and references (`ReferencesOnly.induction`),
stays one when references are replaced (`ReferencesOnly.replaceAll`), and the
searches for the two forms find just its references.
-/

namespace Wcl

theorem Form.head?_opener (form : Form) : form.kind.opener.head? = some '$' := by
  cases form <;> rfl

/-! ### References -/

/-- A reference to a variable by its plain name, as it is spelled in a text. -/
structure IsReference (form : Form) (name spelling : Text) : Prop where
  isVariable : form = .optional ∨ form = .required
  ne_nil : name ≠ []
  dollar : '$' ∉ name
  brace : '}' ∉ name
  colon : ':' ∉ name
  spelled : ∃ opener, opener.map Char.toLower = form.opener.map Char.toLower ∧
    spelling = opener ++ (name ++ ['}'])

/-- Every dollar sign of a text begins a reference. -/
def ReferencesOnly (t : Text) : Prop :=
  ∀ r, '$' :: r <:+ t → ∃ form name spelling, IsReference form name spelling ∧
    spelling <+: '$' :: r

namespace IsReference

variable {form form' : Form} {name name' spelling : Text}

theorem isToken (h : IsReference form name spelling) : IsToken (.form form) ⟨spelling, name⟩ :=
  ⟨h.ne_nil, h.dollar, h.brace, h.spelled⟩

theorem isSpelling (h : IsReference form name spelling) : IsSpelling spelling :=
  h.isToken.isSpelling

theorem at?_eq (h : IsReference form name spelling) (t : Text) :
    Token.at? form.kind (spelling ++ t) = some ⟨spelling, name⟩ :=
  h.isToken.at?_eq t

theorem first?_eq (h : IsReference form name spelling) (t : Text) :
    Token.first? form.kind (spelling ++ t) = some ⟨spelling, name⟩ :=
  h.isToken.first?_eq t

/-- The search for another form passes over a reference. -/
theorem first?_of_ne (h : IsReference form name spelling) (hne : form' ≠ form) (t : Text) :
    Token.first? form'.kind (spelling ++ t) = Token.first? form'.kind t :=
  h.isToken.first?_of_ne (fun he : Use.form form' = .form form => hne (Use.form.inj he)) t

/-- A spelling tells its form and its name. -/
theorem unique (h : IsReference form name spelling) (h' : IsReference form' name' spelling) :
    form = form' ∧ name = name' := by
  obtain ⟨hform, htoken⟩ := h.isToken.unique h'.isToken rfl
  exact ⟨Use.form.inj hform, congrArg Token.body htoken⟩

end IsReference

/-! ### Texts of references -/

/-- Whether a text begins with a reference. -/
def beginsReference (t : Text) : Bool :=
  [Form.optional, Form.required].any fun form =>
    (Token.at? form.kind t).any fun token => !token.body.contains ':'

theorem beginsReference_iff {t : Text} : beginsReference t = true ↔
    ∃ form name spelling, IsReference form name spelling ∧ spelling <+: t := by
  simp only [beginsReference, List.any_eq_true, Option.any_eq_true, Bool.not_eq_true',
    List.contains_eq_mem, decide_eq_false_iff_not]
  constructor
  · rintro ⟨form, hform, token, hat, hcolon⟩
    obtain ⟨opener, r, hop, hspelling, hne, hin, ht⟩ := Token.exists_of_at? hat
    have hdollar : '$' ∉ token.body := fun hm => by simpa [Form.kind] using hin _ hm
    have hbrace : '}' ∉ token.body := fun hm => by simpa [Form.kind] using hin _ hm
    exact ⟨form, token.body, token.spelling, ⟨by simpa using hform, hne, hdollar, hbrace, hcolon,
      opener, hop, hspelling⟩, r, ht.symm⟩
  · rintro ⟨form, name, spelling, hr, r, rfl⟩
    exact ⟨form, by simpa using hr.isVariable, _, hr.at?_eq r, hr.colon⟩

instance (t : Text) : Decidable (ReferencesOnly t) :=
  decidable_of_iff (∀ r ∈ t.tails, r.head? = some '$' → beginsReference r = true) <| by
    constructor
    · intro h r hr
      exact beginsReference_iff.1 (h _ ((List.mem_tails _ _).2 hr) rfl)
    · rintro h (_ | ⟨c, r⟩) hr hc
      · cases hc
      · cases hc
        exact beginsReference_iff.2 (h r ((List.mem_tails _ _).1 hr))

namespace ReferencesOnly

variable {form : Form} {name spelling t t' : Text}

theorem iff_spelledBy :
    ReferencesOnly t ↔ SpelledBy (fun s => ∃ form name, IsReference form name s) t := by
  constructor
  · intro h r hr
    obtain ⟨form, name, s, href, hfront⟩ := h r hr
    exact ⟨s, href.isSpelling, ⟨form, name, href⟩, hfront⟩
  · intro h r hr
    obtain ⟨s, _, ⟨form, name, href⟩, hfront⟩ := h r hr
    exact ⟨form, name, s, href, hfront⟩

protected theorem nil : ReferencesOnly [] := iff_spelledBy.2 .nil

protected theorem char {ch : Char} (hch : ch ≠ '$') (h : ReferencesOnly t) :
    ReferencesOnly (ch :: t) :=
  iff_spelledBy.2 (.char hch (iff_spelledBy.1 h))

protected theorem reference (hr : IsReference form name spelling) (h : ReferencesOnly t) :
    ReferencesOnly (spelling ++ t) :=
  iff_spelledBy.2 (.spelling hr.isSpelling ⟨form, name, hr⟩ (iff_spelledBy.1 h))

/-- A text of references is built of plain characters and references. -/
@[elab_as_elim]
theorem induction {motive : (t : Text) → ReferencesOnly t → Prop} (nil : motive [] .nil)
    (char : ∀ (ch : Char) (t : Text) (hch : ch ≠ '$') (h : ReferencesOnly t), motive t h →
      motive (ch :: t) (.char hch h))
    (reference : ∀ (form : Form) (name spelling t : Text) (hr : IsReference form name spelling)
      (h : ReferencesOnly t), motive t h → motive (spelling ++ t) (.reference hr h))
    (t : Text) (h : ReferencesOnly t) : motive t h := by
  have hs := iff_spelledBy.1 h
  induction t, hs using SpelledBy.induction with
  | nil => exact nil
  | char ch t hch hs ih => exact char ch t hch (iff_spelledBy.2 hs) (ih _)
  | spelling s t _ hP hs ih =>
    obtain ⟨form, name, hr⟩ := hP
    exact reference form name s t hr (iff_spelledBy.2 hs) (ih _)

/-- Putting a text of references for a spelling keeps a text of references. -/
theorem replaceAll {v : Text} (h : ReferencesOnly t) (hs : IsSpelling spelling)
    (hv : ReferencesOnly v) : ReferencesOnly (Text.replaceAll spelling v t) :=
  iff_spelledBy.2 ((iff_spelledBy.1 h).replaceAll hs (iff_spelledBy.1 hv))

/-! ### Searching -/

/-- What the search for a form finds is a reference. -/
theorem isReference_of_first? (h : ReferencesOnly t) {token : Token}
    (hf : Token.first? form.kind t = some token) :
    IsReference form token.body token.spelling := by
  induction t, h using induction with
  | nil => cases hf
  | char ch t hch _ ih =>
    rw [Token.first?_cons_of_ne form.head?_opener hch] at hf
    exact ih hf
  | reference form' name spelling' t hr _ ih =>
    by_cases he : form = form'
    · subst he
      rw [hr.first?_eq] at hf
      cases hf
      exact hr
    · rw [hr.first?_of_ne he] at hf
      exact ih hf

/-- Where neither form of reference is found there is no dollar sign. -/
theorem notMem_of_first? (h : ReferencesOnly t) (ho : Token.first? Form.optional.kind t = none)
    (hr : Token.first? Form.required.kind t = none) : '$' ∉ t := by
  induction t, h using induction with
  | nil => exact List.not_mem_nil
  | char ch t hch _ ih =>
    rw [Token.first?_cons_of_ne (Form.head?_opener _) hch] at ho hr
    exact List.not_mem_cons_of_ne_of_not_mem (Ne.symm hch) (ih ho hr)
  | reference form name spelling t href _ _ =>
    have hfirst := href.first?_eq t
    rcases href.isVariable with rfl | rfl
    · rw [ho] at hfirst
      cases hfirst
    · rw [hr] at hfirst
      cases hfirst

end ReferencesOnly

end Wcl
