import Wcl.Proofs.Template.Limit

/-!
# Circular references

The value of a variable may refer to further variables (`Context.Needs`).  If
following references from a template leads to a variable that needs itself, the
template never resolves: `Context.resolve_circular`.

What keeps the substitution going is that the text is circular itself.  A
reference that leads round in a circle stays where another token is replaced,
and where it is replaced its value brings the next reference of the circle
(`Context.Circular.replaceAll`), so no turn is without a change.  If there is
nothing but references, and all of them are found, nothing else can go wrong,
and the limit is what stops it (`Context.replaces_ledTo`).
-/

namespace Wcl

/-! ### Following references -/

/-- A reference to a variable stands somewhere in a text. -/
def RefersTo (t name : Text) : Prop :=
  ∃ form spelling, IsReference form name spelling ∧ spelling <:+: t

/-- The variables that a text refers to. -/
def referencesIn (t : Text) : List Text :=
  t.tails.flatMap fun r => [Form.optional, .required].filterMap fun form =>
    (Token.at? form.kind r).bind fun token =>
      if ':' ∈ token.body then none else some token.body

theorem mem_referencesIn {t name : Text} : name ∈ referencesIn t ↔ RefersTo t name := by
  simp only [referencesIn, List.mem_flatMap, List.mem_tails, List.mem_filterMap,
    Option.bind_eq_some_iff, Option.ite_none_left_eq_some, Option.some.injEq]
  constructor
  · rintro ⟨r, hr, form, hform, token, hat, hcolon, rfl⟩
    obtain ⟨w, r', hw, hspelling, hne, hin, rfl⟩ := Token.exists_of_at? hat
    have hdollar : '$' ∉ token.body := fun hm => by simpa [Form.kind] using hin _ hm
    have hbrace : '}' ∉ token.body := fun hm => by simpa [Form.kind] using hin _ hm
    exact ⟨form, token.spelling, ⟨by simpa using hform, hne, hdollar, hbrace, hcolon, w, hw,
      hspelling⟩, (List.prefix_append _ r').isInfix.trans hr.isInfix⟩
  · rintro ⟨form, spelling, href, p, q, rfl⟩
    refine ⟨spelling ++ q, ?_, form, by simpa using href.isVariable, ⟨spelling, name⟩,
      href.at?_eq q, href.colon, rfl⟩
    rw [List.append_assoc]
    exact List.suffix_append _ _

instance (t name : Text) : Decidable (RefersTo t name) :=
  decidable_of_iff ((referencesIn t).contains name = true)
    (List.contains_iff_mem.trans mem_referencesIn)

namespace Context

variable {c : Context} {inner : (name value : Text) → Traced Text} {template : Text} {form : Form}
  {token : Token} {t v name name' : Text}

/-- The value of a variable refers to another one. -/
def Needs (c : Context) (name name' : Text) : Prop :=
  ∃ v, c.document.find? c.scope name = some (.scalar v) ∧ RefersTo v name'

/-- Following references from a text leads to a variable. -/
def Reaches (c : Context) (t name : Text) : Prop :=
  ∃ first, RefersTo t first ∧ Relation.ReflTransGen c.Needs first name

/-- Following references from a text leads to a variable from which it leads
there again. -/
def Circular (c : Context) (t : Text) : Prop :=
  ∃ name, c.Reaches t name ∧ Relation.TransGen c.Needs name name

theorem Reaches.needs (h : c.Reaches t name) (hn : c.Needs name name') : c.Reaches t name' := by
  obtain ⟨first, hfirst, hpath⟩ := h
  exact ⟨first, hfirst, hpath.tail hn⟩

/-- A list of variables that has all that the text and they refer to has all that
the text leads to. -/
theorem Reaches.mem_of_closed {names : List Text} (ht : ∀ n ∈ referencesIn t, n ∈ names)
    (hnames : ∀ n ∈ names, ∀ v, c.document.find? c.scope n = some (.scalar v) →
      ∀ n' ∈ referencesIn v, n' ∈ names)
    (h : c.Reaches t name) : name ∈ names := by
  obtain ⟨first, hfirst, hpath⟩ := h
  induction hpath with
  | refl => exact ht first (mem_referencesIn.2 hfirst)
  | tail _ hneeds ih =>
    obtain ⟨v, hfind, href⟩ := hneeds
    exact hnames _ ih v hfind _ (mem_referencesIn.2 href)

/-- Every variable on the way to a circle, or in it, has a value that goes on. -/
theorem exists_circular_value {last : Text} (h : Relation.ReflTransGen c.Needs name last)
    (hlast : Relation.TransGen c.Needs last last) :
    ∃ v, c.document.find? c.scope name = some (.scalar v) ∧ c.Circular v := by
  obtain ⟨name', ⟨v, hfind, href⟩, hpath⟩ : ∃ name', c.Needs name name' ∧
      Relation.ReflTransGen c.Needs name' last := by
    rcases h.cases_head with rfl | hstep
    · exact Relation.TransGen.head'_iff.1 hlast
    · exact hstep
  exact ⟨v, hfind, last, ⟨name', href, hpath⟩, hlast⟩

/-! ### A circle goes on -/

namespace Circular

/-- A text stays circular when something is put for a token. -/
theorem replaceAll (h : c.Circular t) (hexp : c.expand = false)
    (hf : Token.first? form.kind t = some token) (hputs : c.Puts inner form token v) :
    c.Circular (Text.replaceAll token.spelling v t) := by
  obtain ⟨last, ⟨name, ⟨form', spelling, href, hin⟩, hpath⟩, hlast⟩ := h
  obtain ⟨htoken, _⟩ := Form.isToken_of_first? hf
  by_cases he : token.spelling = spelling
  · -- The reference is replaced, and its value leads to the same circle.
    subst he
    obtain ⟨huse, hsame⟩ := htoken.unique href.isToken rfl
    obtain rfl := Use.form.inj huse
    obtain rfl : token.body = name := congrArg Token.body hsame
    obtain ⟨value, hfind, last', ⟨name', ⟨form', spelling', href', hin'⟩, hpath'⟩, hlast'⟩ :=
      exists_circular_value hpath hlast
    obtain rfl := hputs.unique (puts_reference hexp href hfind)
    have hvalue := Text.infix_replaceAll_self htoken.isSpelling.ne_nil v hin
    exact ⟨last', ⟨name', ⟨form', spelling', href', hin'.trans hvalue⟩, hpath'⟩, hlast'⟩
  · have hstays := Text.infix_replaceAll_of_ne htoken.isSpelling href.isSpelling he v hin
    exact ⟨last, ⟨name, ⟨form', spelling, href, hstays⟩, hpath⟩, hlast⟩

/-- A circular text has a variable. -/
theorem not_lacks (h : c.Circular t) : ¬ Lacks [.optional, .required] t := by
  obtain ⟨_, ⟨name, ⟨form, spelling, href, hin⟩, _⟩, _⟩ := h
  intro hlacks
  exact href.isToken.first?_ne_none hin (hlacks form (by simpa using href.isVariable))

/-- So the stage of variables does not end. -/
theorem not_turns (hexp : c.expand = false) {start before stop : Combination}
    (h : c.Circular start.text)
    (hturns : c.Turns inner template [.header, .optional, .required] start before stop) :
    False := by
  have hpass : ∀ form ∈ [Form.header, .optional, .required],
      ∀ {item item' : Combination} {changed : Bool},
      c.Passes inner form item item' changed → c.Circular item.text → c.Circular item'.text :=
    fun _ _ _ _ _ hpasses hcircular =>
      hpasses.preserves (fun hf hputs ht => ht.replaceAll hexp hf hputs) hcircular
  obtain ⟨_, hstop⟩ := hturns.preserves (P := fun item => c.Circular item.text) hpass h
  obtain ⟨_, hvariables, _⟩ := lacks_of_turn hturns.result_turn
  exact hstop.not_lacks hvariables

end Circular

end Context

/-! ### Only the limit can be in the way -/

namespace Context

variable {c : Context} {inner : (name value : Text) → Traced Text} {template : Text} {form : Form}
  {forms : List Form} {item : Combination} {limit : Nat} {t v name : Text}

/-- Every variable that a template leads to is found, and its value holds
nothing but references. -/
def FindsReferences (c : Context) (template : Text) : Prop :=
  ∀ name, c.Reaches template name →
    ∃ v, c.document.find? c.scope name = some (.scalar v) ∧ ReferencesOnly v

/-- Every dollar sign of a text begins a reference that the template leads to. -/
def LedTo (c : Context) (template : Text) : Text → Prop :=
  SpelledBy fun s => ∃ form name, IsReference form name s ∧ c.Reaches template name

namespace LedTo

theorem of_referencesOnly (h : ReferencesOnly t)
    (hall : ∀ name, RefersTo t name → c.Reaches template name) : c.LedTo template t := by
  intro r hr
  obtain ⟨form, name, spelling, href, hfront⟩ := h r hr
  have hin : RefersTo t name := ⟨form, spelling, href, hfront.isInfix.trans hr.isInfix⟩
  exact ⟨spelling, href.isSpelling, ⟨form, name, href, hall name hin⟩, hfront⟩

theorem referencesOnly (h : c.LedTo template t) : ReferencesOnly t := by
  intro r hr
  obtain ⟨s, _, ⟨form, name, href, _⟩, hfront⟩ := h r hr
  exact ⟨form, name, s, href, hfront⟩

/-- What the search finds is a reference that the template leads to. -/
theorem of_first? (h : c.LedTo template t) {token : Token}
    (hf : Token.first? form.kind t = some token) :
    IsReference form token.body token.spelling ∧ c.Reaches template token.body := by
  have href := h.referencesOnly.isReference_of_first? hf
  refine ⟨href, ?_⟩
  obtain ⟨_, p, q, hpq⟩ := Form.isToken_of_first? hf
  obtain ⟨r, hr, _⟩ := href.isSpelling.exists_cons
  have hsuffix : '$' :: (r ++ q) <:+ t := ⟨p, by rw [← hpq, hr]; simp⟩
  obtain ⟨s, hs, ⟨_, name, hname, hreach⟩, q', hq'⟩ := h _ hsuffix
  have hsame : token.spelling ++ q = s ++ q' := by rw [hq', hr, List.cons_append]
  obtain ⟨rfl, _⟩ := href.isSpelling.append_inj hs hsame
  obtain ⟨_, rfl⟩ := href.unique hname
  exact hreach

end LedTo

section Limit

variable (hexp : c.expand = false) (hfinds : c.FindsReferences template)

include hexp hfinds

/-- For a reference that is led to its value is put, which leads on. -/
theorem replaces_ledTo (form : Form) : c.Replaces inner (c.LedTo template) form := by
  intro t token hf ht
  obtain ⟨href, hreach⟩ := ht.of_first? hf
  obtain ⟨v, hfind, hv⟩ := hfinds _ hreach
  have hled : c.LedTo template v :=
    .of_referencesOnly hv fun name' hname' => hreach.needs ⟨v, hfind, hname'⟩
  exact ⟨v, puts_reference hexp href hfind, ht.replaceAll href.isSpelling hled⟩

theorem okOr_untilStable (ht : c.LedTo template item.text) :
    Traced.OkOr (.endless template) (fun item' => c.LedTo template item'.text)
      (c.untilStable inner template forms limit item) :=
  Replaces.okOr_untilStable (fun form _ => replaces_ledTo hexp hfinds form) ht

end Limit

/-! ### A whole template -/

/-- **A circular template never resolves.**  If it holds nothing but references,
and all that it leads to are found and hold nothing else either, it is the limit
that is met. -/
theorem resolve_circular (c : Context) (hexp : c.expand = false) {template : Text}
    (h : c.Circular template) :
    (∃ e, (c.resolve template).result = .error e) ∧
      (ReferencesOnly template → c.FindsReferences template →
        (c.resolve template).result = .error (.endless template)) := by
  constructor
  · cases hresult : (c.resolve template).result with
    | error e => exact ⟨e, rfl⟩
    | ok r =>
      obtain ⟨s, hs⟩ := exists_lead hresult
      exact absurd hs.settles (Circular.not_turns hexp h)
  · intro ht hfinds
    obtain ⟨inner, hinner⟩ := c.exists_resolve_eq template
    have hled : c.LedTo template (Combination.mk template []).text :=
      .of_referencesOnly ht fun name hname => ⟨name, hname, .refl⟩
    have hvariables : Traced.OkOr (.endless template) (fun item => c.LedTo template item.text)
        (c.untilStable inner template [.header, .optional, .required] turnLimit ⟨template, []⟩) :=
      okOr_untilStable hexp hfinds hled
    rcases hvariables with ⟨item, hitem, _⟩ | he
    · obtain ⟨_, hturns⟩ := turns_of_untilStable hitem
      exact (Circular.not_turns hexp h hturns).elim
    · rw [hinner, resolveWith, Traced.result_bind]
      exact Traced.bind_eq_error (Traced.bind_eq_error he)

/-- A circle of a required and an optional variable, in two letter cases, behind
another variable and beside one that ends. -/
theorem resolve_circular_forms :
    let c : Context :=
      ⟨.ofList [("a".toList, .scalar "<$\x7bb\x7d>".toList),
        ("b".toList, .scalar "$OPT\x7bA\x7d$\x7bc\x7d".toList), ("c".toList, .scalar "x".toList)],
        {}, false, none⟩
    let template := "p$opt\x7bc\x7d$\x7ba\x7d".toList
    c.expand = false ∧ c.Circular template ∧ ReferencesOnly template ∧
      c.FindsReferences template ∧ (c.resolve template).result = .error (.endless template) := by
  intro c template
  have hneeds : ∀ {n n' v}, c.document.find? c.scope n = some (.scalar v) → RefersTo v n' →
      c.Needs n n' := fun hfind href => ⟨_, hfind, href⟩
  have hab : c.Needs "a".toList "b".toList := hneeds rfl (by decide)
  have hbA : c.Needs "b".toList "A".toList := hneeds rfl (by decide)
  have hAb : c.Needs "A".toList "b".toList := hneeds rfl (by decide)
  have hcircular : c.Circular template :=
    ⟨"b".toList, ⟨"a".toList, by decide, .single hab⟩, .head hbA (.single hAb)⟩
  have hfinds : c.FindsReferences template := by
    intro name hname
    have hmem : name ∈ ["a".toList, "b".toList, "A".toList, "c".toList] := by
      refine hname.mem_of_closed (by decide) fun n hn v hfind => ?_
      simp only [List.mem_cons, List.not_mem_nil, or_false] at hn
      rcases hn with rfl | rfl | rfl | rfl <;> cases hfind <;> decide
    simp only [List.mem_cons, List.not_mem_nil, or_false] at hmem
    rcases hmem with rfl | rfl | rfl | rfl <;> exact ⟨_, rfl, by decide⟩
  have ht : ReferencesOnly template := by decide
  exact ⟨rfl, hcircular, ht, hfinds, (c.resolve_circular rfl hcircular).2 ht hfinds⟩

end Context

end Wcl
