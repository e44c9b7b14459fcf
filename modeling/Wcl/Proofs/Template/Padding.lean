import Wcl.Proofs.Template.OneText

/-!
# References with a width

A reference with a width takes its own way: the value of its variable is
resolved by itself, read as an integer and padded.  What it comes to is a number
that is wide enough, and the number that the reference without a width comes to:
resolving the value with fewer names active gives the same (`follows_resolveIn`),
and so does beginning with the value and not with a reference to it
(`Exchanged.unique_of_resolveSingle`).  That the reference has one token more may
be too much for the limit, but nothing else is in the way
(`Exchanged.okOr_resolveSingle`).

The value of a variable that stands for several values is put as it is, with a
width or without one; a width is then dropped: `Context.resolveSingle_padded`.
-/

namespace Wcl

namespace Traced

variable {α β : Type} {template template' : Text}

/-- What one computation returns the other one returns as well. -/
def Follows (x y : Traced α) : Prop := ∀ a, x.result = .ok a → y.result = .ok a

theorem compatible_follows : Compatible (fun x y => Follows x y) template template' where
  quiet _ := fun _ h => h
  bind hxy hfg := by
    intro b hb
    obtain ⟨a, ha, hb⟩ := bind_eq_ok.1 hb
    exact bind_eq_ok.2 ⟨a, hxy a ha, hfg a ha b hb⟩
  endless := nofun

end Traced

namespace Context

variable {c : Context} {inner : (name value : Text) → Traced Text}
  {template body name value width s t : Text} {item : Combination}

/-! ### Fewer active names -/

/-- With more depth and fewer names active whatever was returned is returned. -/
theorem follows_resolveIn {depth depth' : Nat} {active active' : List Text}
    (hdepth : depth ≤ depth') (hactive : active' ⊆ active) (template : Text) :
    (c.resolveIn depth active template).Follows (c.resolveIn depth' active' template) := by
  induction depth generalizing depth' active active' template with
  | zero => exact nofun
  | succ depth ih =>
    obtain ⟨depth', rfl⟩ := Nat.exists_eq_succ_of_ne_zero (Nat.ne_zero_of_lt hdepth)
    rw [resolveIn_succ, Nat.succ_eq_add_one, resolveIn_succ]
    refine Traced.compatible_follows.resolveWith fun name value _ => ?_
    by_cases hname : name ∈ active
    · rw [valueIn_of_mem hname]
      exact nofun
    · rw [valueIn_of_notMem hname, valueIn_of_notMem fun hm => hname (hactive hm)]
      intro text htext
      obtain ⟨r, hr, honly⟩ := Traced.bind_eq_ok.1 htext
      have hrest := ih (Nat.le_of_succ_le_succ hdepth) (List.cons_subset_cons name hactive) value
      exact Traced.bind_eq_ok.2 ⟨r, hrest r hr, honly⟩

/-- A value that resolves by itself for a template resolves. -/
theorem resolveSingle_of_valueIn {depth : Nat} {active : List Text} {number : Text}
    (hdepth : depth ≤ c.depthBound)
    (h : (c.valueIn depth active template name value).result = .ok number) :
    (c.resolveSingle value).result = .ok number := by
  by_cases hname : name ∈ active
  · rw [valueIn_of_mem hname] at h
    cases h
  · rw [valueIn_of_notMem hname] at h
    obtain ⟨r, hr, honly⟩ := Traced.bind_eq_ok.1 h
    have hresolve : (c.resolve value).result = .ok r :=
      follows_resolveIn hdepth (List.nil_subset (name :: active)) value r hr
    exact Traced.bind_eq_ok.2 ⟨r, hresolve, honly⟩

/-! ### A reference alone -/

theorem isToken_reference (hne : body ≠ []) (hdollar : '$' ∉ body) (hbrace : '}' ∉ body) :
    IsToken (.form .required) ⟨reference body, body⟩ :=
  ⟨hne, hdollar, hbrace, "$\x7b".toList, rfl, rfl⟩

/-- A turn passes over a form without tokens. -/
theorem result_turn_cons_of_none {form : Form} {forms : List Form}
    (hf : Token.first? form.kind item.text = none) :
    (c.turn inner template (form :: forms) item).result =
      (c.turn inner template forms item).result := by
  rw [turn, Traced.result_bind, substitute_of_none hf]
  show (c.turn inner template forms item >>= _).result = _
  rw [Traced.result_bind]
  cases (c.turn inner template forms item).result with
  | error e => rfl
  | ok r => exact congrArg Except.ok (Prod.ext rfl (Bool.false_or _))

/-- A turn for one form is a pass. -/
theorem result_turn_singleton {form : Form} :
    (c.turn inner template [form] item).result =
      (c.substitute inner template form turnLimit item).result := by
  rw [turn, Traced.result_bind]
  cases (c.substitute inner template form turnLimit item).result with
  | error e => rfl
  | ok r => exact congrArg Except.ok (Prod.ext rfl (Bool.or_false _))

/-- The first turn puts something for the reference, and that goes on. -/
theorem untilStable_reference_eq_ok_iff (h : IsToken (.form .required) ⟨reference body, body⟩) :
    (c.untilStable inner template [.header, .optional, .required] turnLimit
        ⟨reference body, []⟩).result = .ok item ↔
      ∃ new next changed, (c.variableValue? inner body).result = .ok (some new) ∧
        (c.substitute inner template .required 99
          (Combination.substitute ⟨reference body, []⟩ ⟨reference body, body⟩ new)).result =
          .ok (next, changed) ∧
        (c.untilStable inner template [.header, .optional, .required] 99 next).result =
          .ok item := by
  have hfirst : Token.first? Form.required.kind (reference body) = some ⟨reference body, body⟩ := by
    have hfront := h.first?_eq []
    rwa [List.append_nil] at hfront
  have hnone : ∀ form : Form, form ≠ .required →
      Token.first? form.kind (Combination.mk (reference body) []).text = none := by
    intro form hform
    have hne : Use.form form ≠ .form .required := fun he => hform (Use.form.inj he)
    have hfront := h.first?_of_ne hne []
    rwa [List.append_nil] at hfront
  have hturn : (c.turn inner template [.header, .optional, .required] ⟨reference body, []⟩).result =
      (c.substitute inner template .required turnLimit ⟨reference body, []⟩).result := by
    rw [result_turn_cons_of_none (hnone .header (by decide)),
      result_turn_cons_of_none (hnone .optional (by decide)), result_turn_singleton]
  constructor
  · intro hrun
    obtain ⟨r, hr, hrest⟩ := Traced.bind_eq_ok.1 hrun
    rw [hturn] at hr
    unfold substitute turnLimit at hr
    rw [hfirst] at hr
    obtain ⟨new?, hnew, hr⟩ := Traced.bind_eq_ok.1 hr
    cases new? with
    | none => cases hr
    | some new =>
      obtain ⟨⟨next, changed⟩, hsub, hr⟩ := Traced.bind_eq_ok.1 hr
      cases hr
      exact ⟨new, next, changed, hnew, hsub, hrest⟩
  · rintro ⟨new, next, changed, hnew, hsub, hrest⟩
    refine Traced.bind_eq_ok.2 ⟨(next, true), ?_, hrest⟩
    rw [hturn]
    unfold substitute turnLimit
    rw [hfirst]
    exact Traced.bind_eq_ok.2 ⟨some new, hnew, Traced.bind_eq_ok.2 ⟨_, hsub, rfl⟩⟩

theorem text_substitute_reference (new : Replacement) :
    (Combination.substitute ⟨reference body, []⟩ ⟨reference body, body⟩ new).text = new.text := by
  have hfront := Text.replaceAll_append (List.cons_ne_nil _ _ : reference body ≠ []) new.text []
  rwa [List.append_nil, Text.replaceAll_nil, List.append_nil] at hfront

theorem substitute_reference (v : Text) :
    Combination.substitute ⟨reference body, []⟩ ⟨reference body, body⟩ ⟨v, none⟩ = ⟨v, []⟩ :=
  congrArg (Combination.mk · []) (text_substitute_reference ⟨v, none⟩)

/-- Where a text with nothing to resolve is put for the reference, that is all. -/
theorem resolveSingle_reference_of_concrete (h : IsToken (.form .required) ⟨reference body, body⟩)
    {new : Replacement} (hnew : (c.variableValue?
      (c.valueIn (c.depthBound - 1) [] (reference body)) body).result = .ok (some new))
    (hplain : Concrete new.text) :
    (c.resolveSingle (reference body)).result = .ok s ↔ s = new.text := by
  let item := Combination.substitute ⟨reference body, []⟩ ⟨reference body, body⟩ new
  have htext : item.text = new.text := text_substitute_reference new
  have hitem : Concrete item.text := htext ▸ hplain
  have hall : (c.substituteAll (c.valueIn (c.depthBound - 1) [] (reference body))
      (reference body)).result = .ok item := by
    refine Traced.bind_eq_ok.2 ⟨item, ?_, untilStable_of_none fun form _ => hitem.first?_form form⟩
    exact (untilStable_reference_eq_ok_iff h).2 ⟨new, item, false, hnew,
      substitute_of_none (hitem.first?_form .required),
      untilStable_of_none fun form _ => hitem.first?_form form⟩
  have hcomes : c.ComesTo item new.text :=
    ⟨[], by rw [hitem.hasLoops_eq]; rfl, .inl ⟨rfl, htext.symm⟩⟩
  have hresult := resolveSingle_eq_ok_iff.2 ⟨item, hall, hcomes⟩
  rw [hresult]
  exact ⟨fun he => (Except.ok.inj he).symm, fun he => he ▸ rfl⟩

/-- A reference that resolves has something to put. -/
theorem exists_variableValue? (h : IsToken (.form .required) ⟨reference body, body⟩)
    (hs : (c.resolveSingle (reference body)).result = .ok s) :
    ∃ new, (c.variableValue? (c.valueIn (c.depthBound - 1) [] (reference body)) body).result =
      .ok (some new) := by
  obtain ⟨called, hall, _⟩ := resolveSingle_eq_ok_iff.1 hs
  obtain ⟨settled, hstable, _⟩ := Traced.bind_eq_ok.1 hall
  obtain ⟨new, _, _, hnew, _⟩ := (untilStable_reference_eq_ok_iff h).1 hstable
  exact ⟨new, hnew⟩

/-- Two references for which the same is put resolve alike. -/
theorem resolveSingle_reference_of_same {body' : Text}
    (h : IsToken (.form .required) ⟨reference body, body⟩)
    (h' : IsToken (.form .required) ⟨reference body', body'⟩) {v : Text}
    (hnew : ∀ inner, (c.variableValue? inner body).result = .ok (some ⟨v, none⟩))
    (hnew' : ∀ inner, (c.variableValue? inner body').result = .ok (some ⟨v, none⟩))
    (hs : (c.resolveSingle (reference body)).result = .ok s) :
    (c.resolveSingle (reference body')).result = .ok s := by
  have hcompatible : Traced.Compatible (fun x y => Traced.Follows x y) (reference body)
      (reference body') := Traced.compatible_follows
  obtain ⟨called, hall, hcomes⟩ := resolveSingle_eq_ok_iff.1 hs
  obtain ⟨settled, hstable, hcalls⟩ := Traced.bind_eq_ok.1 hall
  obtain ⟨new, next, changed, hput, hsub, hrest⟩ := (untilStable_reference_eq_ok_iff h).1 hstable
  rw [hnew] at hput
  cases hput
  rw [substitute_reference] at hsub
  rw [valueIn_nil_congr (reference body) (reference body')] at hsub hrest hcalls
  have hself : ∀ name value, c.document.find? c.scope name = some (.scalar value) →
      (c.valueIn (c.depthBound - 1) [] (reference body') name value).Follows
        (c.valueIn (c.depthBound - 1) [] (reference body') name value) := fun _ _ _ _ h => h
  refine resolveSingle_eq_ok_iff.2 ⟨called, Traced.bind_eq_ok.2 ⟨settled, ?_, ?_⟩, hcomes⟩
  · refine (untilStable_reference_eq_ok_iff h').2 ⟨_, next, changed, hnew' _, ?_, ?_⟩
    · rw [substitute_reference]
      exact hcompatible.substitute hself _ hsub
    · exact hcompatible.untilStable hself _ hrest
  · exact hcompatible.untilStable hself _ hcalls

/-- A reference is exchanged for the value of its variable. -/
theorem exchanged_reference (hexp : c.expand = false)
    (href : IsReference .required name (reference name)) {v : Text}
    (hfind : c.document.find? c.scope name = some (.scalar v)) :
    c.Exchanged inner [.header, .optional, .required] (reference name) v := by
  have hputs : c.Puts inner .required ⟨reference name, name⟩ v := puts_reference hexp href hfind
  have hform : Form.required ∈ [Form.header, .optional, .required] := by decide
  have hfirst := Exchanges.intro [] [] hform href.isToken hputs
  rw [List.append_nil, List.append_nil] at hfirst
  exact .single hfirst

section Width

variable (hdollar : '$' ∉ name) (hbrace : '}' ∉ name) (hcolon : ':' ∉ name)
  (hwidth : Text.isDigits width = true)

include hdollar hbrace hwidth in
theorem isToken_reference_width :
    IsToken (.form .required)
      ⟨reference (name ++ ':' :: width), name ++ ':' :: width⟩ := by
  have hnotMem : ∀ {ch : Char}, ch ∉ name → ch ≠ ':' → ch.isDigit = false →
      ch ∉ name ++ ':' :: width := by
    intro ch hname hch hdigit hm
    rcases List.mem_append.1 hm with hm | hm
    · exact hname hm
    · exact (List.mem_cons.1 hm).elim hch (Text.notMem_of_isDigits hwidth hdigit)
  exact isToken_reference (by simp) (hnotMem hdollar (by decide) (by decide))
    (hnotMem hbrace (by decide) (by decide))

include hcolon in
theorem cutAt_width : Text.cutAt ':' (name ++ ':' :: width) = (name, some width) :=
  Text.cutAt_append hcolon width

include hcolon in
/-- For a variable with one value it is the number of that value that is padded. -/
theorem exists_number {new : Replacement}
    (hsingle : ∀ v, c.document.find? c.scope name = some (.scalar v) →
      Text.isMultiValued v = false)
    (h : (c.variableValue? inner (name ++ ':' :: width)).result = .ok (some new)) :
    ∃ v number, c.document.find? c.scope name = some (.scalar v) ∧
      (inner name v).result = .ok number ∧ Text.zeroPad? number width = some new.text := by
  simp only [variableValue?, Token.nameIn, Token.widthIn?, cutAt_width hcolon] at h
  cases hfind : c.document.find? c.scope name with
  | none =>
    rw [hfind] at h
    cases h
  | some found =>
    cases found with
    | nested d =>
      rw [hfind] at h
      cases h
    | scalar v =>
      simp only [hfind, hsingle v hfind] at h
      obtain ⟨number, hnumber, h⟩ := Traced.bind_eq_ok.1 h
      split at h
      · next shown hshown =>
        cases h
        exact ⟨v, number, rfl, hnumber, hshown⟩
      · cases h

include hdollar hbrace hcolon hwidth in
/-- What a reference with a width comes to is a number that is wide enough, and
the number that the reference without it comes to, unless the limit is in the way. -/
theorem exists_integer (hexp : c.expand = false)
    (hsingle : ∀ v, c.document.find? c.scope name = some (.scalar v) →
      Text.isMultiValued v = false)
    (hs : (c.resolveSingle (reference (name ++ ':' :: width))).result = .ok s) :
    ∃ n, Text.IsDecimal s ∧ Text.natOfDigits width ≤ s.length ∧ Text.readInt? s = some n ∧
      (name ≠ [] → (∀ r ∈ c.registry, r.headerReader = none) →
        (∀ t, (c.resolveSingle (reference name)).result = .ok t →
          Text.readInt? (Text.trim t) = some n) ∧
        ((∀ key ∈ c.document.names c.scope, '$' ∉ key) →
          (∃ t, (c.resolveSingle (reference name)).result = .ok t) ∨
            (c.resolveSingle (reference name)).result = .error (.endless (reference name)))) := by
  have htoken := isToken_reference_width hdollar hbrace hwidth
  obtain ⟨new, hnew⟩ := exists_variableValue? htoken hs
  obtain ⟨v, number, hfind, hnumber, hpad⟩ := exists_number hcolon hsingle hnew
  obtain rfl := (resolveSingle_reference_of_concrete htoken hnew
    (.of_notMem (Text.notMem_of_zeroPad? hpad))).1 hs
  have hvalue := resolveSingle_of_valueIn (Nat.sub_le c.depthBound 1) hnumber
  obtain ⟨n, hn, hdecimal, hlen, hread⟩ := Text.zeroPad?_eq_some hwidth hpad
  refine ⟨n, hdecimal, hlen, hread, fun hne hreader => ?_⟩
  -- The reference without a width begins with an exchange that makes it the value.
  have hstart : ∀ inner, c.Exchanged inner [.header, .optional, .required] (reference name) v :=
    fun inner => exchanged_reference hexp (isReference_reference hne hdollar hbrace hcolon) hfind
  refine ⟨fun t ht => ?_, fun hnames => ?_⟩
  · rw [Exchanged.unique_of_resolveSingle hreader hstart ht hvalue]
    exact hn
  · have hplain := (Text.notMem_of_zeroPad?_eq_some hpad).1
    exact (Exchanged.okOr_resolveSingle hnames hreader hstart hvalue hplain).imp_left
      fun ⟨t, ht, _⟩ => ⟨t, ht⟩

end Width

/-- A dollar sign before empty braces is no reference and stays. -/
theorem resolveSingle_reference_nil (c : Context) :
    (c.resolveSingle (reference [])).result = .ok (reference []) := by
  have hnone : ∀ form : Form, Token.first? form.kind (reference []) = none := by
    rintro ⟨⟩ <;> rfl
  exact resolveSingle_eq_ok_iff.2
    ⟨⟨reference [], []⟩, substituteAll_of_none hnone, [], rfl, .inl ⟨rfl, rfl⟩⟩

/-- **A width pads the value of a variable that has one.**  What comes of the
reference is then a decimal number, as wide as it is asked to be, and without a
header reader it is the number that the reference without the width comes to, so
that there is an error where that is none.  If no key has a dollar sign, the
reference without the width does come to it, or to the limit, since it has one
token more to replace than the value has.  For a variable with several values
the width is dropped: the reference comes to the same with it and without it,
and may be no number at all. -/
theorem resolveSingle_padded (c : Context) (hexp : c.expand = false) {name width : Text}
    (hdollar : '$' ∉ name) (hbrace : '}' ∉ name) (hcolon : ':' ∉ name)
    (hwidth : Text.isDigits width = true) :
    ((∀ v, c.document.find? c.scope name = some (.scalar v) → Text.isMultiValued v = false) →
      (∀ s, (c.resolveSingle (reference (name ++ ':' :: width))).result = .ok s →
        ∃ n, Text.IsDecimal s ∧ Text.natOfDigits width ≤ s.length ∧ Text.readInt? s = some n ∧
          (name ≠ [] → (∀ r ∈ c.registry, r.headerReader = none) →
            (∀ t, (c.resolveSingle (reference name)).result = .ok t →
              Text.readInt? (Text.trim t) = some n) ∧
            ((∀ key ∈ c.document.names c.scope, '$' ∉ key) →
              (∃ t, (c.resolveSingle (reference name)).result = .ok t) ∨
                (c.resolveSingle (reference name)).result =
                  .error (.endless (reference name))))) ∧
      (name ≠ [] → (∀ r ∈ c.registry, r.headerReader = none) →
        ∀ t, (c.resolveSingle (reference name)).result = .ok t →
          Text.readInt? (Text.trim t) = none →
          ∃ e, (c.resolveSingle (reference (name ++ ':' :: width))).result = .error e)) ∧
    (∀ v, c.document.find? c.scope name = some (.scalar v) → Text.isMultiValued v = true →
      name ≠ [] → ∀ s, (c.resolveSingle (reference (name ++ ':' :: width))).result = .ok s ↔
        (c.resolveSingle (reference name)).result = .ok s) ∧
    (name = [] → (c.resolveSingle (reference name)).result = .ok (reference name)) := by
  have htoken := isToken_reference_width hdollar hbrace hwidth
  refine ⟨fun hsingle => ?_, fun v hfind hmulti hne s => ?_, ?_⟩
  · refine ⟨fun s hs => exists_integer hdollar hbrace hcolon hwidth hexp hsingle hs,
      fun hne hreader t ht hnone => ?_⟩
    cases hs : (c.resolveSingle (reference (name ++ ':' :: width))).result with
    | error e => exact ⟨e, rfl⟩
    | ok s =>
      obtain ⟨n, _, _, _, hsame⟩ :=
        exists_integer hdollar hbrace hcolon hwidth hexp hsingle hs
      rw [(hsame hne hreader).1 t ht] at hnone
      cases hnone
  · have hplain : IsToken (.form .required) ⟨reference name, name⟩ :=
      isToken_reference hne hdollar hbrace
    have hcut : Text.cutAt ':' name = (name, none) := Text.cutAt_of_notMem hcolon
    have hnew : ∀ inner, (c.variableValue? inner (name ++ ':' :: width)).result =
        .ok (some ⟨v, none⟩) := by
      intro inner
      simp only [variableValue?, Token.nameIn, cutAt_width hcolon, hfind, hmulti, hexp]
      rfl
    have hnew' : ∀ inner, (c.variableValue? inner name).result = .ok (some ⟨v, none⟩) := by
      intro inner
      simp only [variableValue?, Token.nameIn, hcut, hfind, hmulti, hexp]
      rfl
    exact ⟨resolveSingle_reference_of_same htoken hplain hnew hnew',
      resolveSingle_reference_of_same hplain htoken hnew' hnew⟩
  · rintro rfl
    exact c.resolveSingle_reference_nil

/-- A value that a reference completes to a number, and one with several values. -/
def paddingContext : Context where
  document := .ofList
    [("a".toList, .scalar "$\x7bb\x7d2".toList), ("b".toList, .scalar "-1".toList),
      ("m".toList, .scalar "1,2".toList)]

theorem resolveSingle_padded_negative :
    let c := paddingContext
    (c.resolveSingle (reference "a:5".toList)).result = .ok "-0012".toList ∧
      (c.resolveSingle (reference "a".toList)).result = .ok "-12".toList ∧
      (∃ n, Text.readInt? "-0012".toList = some n ∧
        Text.readInt? (Text.trim "-12".toList) = some n) ∧
      ((∃ t, (c.resolveSingle (reference "a".toList)).result = .ok t) ∨
        (c.resolveSingle (reference "a".toList)).result =
          .error (.endless (reference "a".toList))) ∧
      ∀ s, (c.resolveSingle (reference "m:3".toList)).result = .ok s ↔
        (c.resolveSingle (reference "m".toList)).result = .ok s := by
  intro c
  obtain ⟨hone, _, _⟩ := @resolveSingle_padded c rfl "a".toList "5".toList (by decide) (by decide)
    (by decide) (by decide)
  obtain ⟨_, hseveral, _⟩ := @resolveSingle_padded c rfl "m".toList "3".toList (by decide)
    (by decide) (by decide) (by decide)
  have hsingle : ∀ v, c.document.find? c.scope "a".toList = some (.scalar v) →
      Text.isMultiValued v = false := by
    rintro _ ⟨⟩
    decide
  have hpadded : (c.resolveSingle (reference "a:5".toList)).result = .ok "-0012".toList := by rfl
  have hplain : (c.resolveSingle (reference "a".toList)).result = .ok "-12".toList := by rfl
  obtain ⟨n, _, _, hread, hsame⟩ := (hone hsingle).1 _ hpadded
  obtain ⟨hinteger, hreturns⟩ := hsame (by decide) nofun
  exact ⟨hpadded, hplain, ⟨n, hread, hinteger _ hplain⟩, hreturns (by decide),
    hseveral "1,2".toList rfl (by decide) (by decide)⟩

/-- The width of a variable with several values is dropped without an error. -/
theorem resolveSingle_unpadded :
    let c := paddingContext
    (c.resolveSingle (reference "m:3".toList)).result = .ok "1,2".toList ∧
      ¬ Text.IsDecimal "1,2".toList ∧
      (c.resolveSingle (reference "m".toList)).result = .ok "1,2".toList ∧
      Text.readInt? (Text.trim "1,2".toList) = none := by
  refine ⟨by rfl, ?_, by rfl, by decide⟩
  rintro ⟨digits, hdigits, rfl | h⟩
  · exact absurd hdigits (by decide)
  · cases h

end Context

end Wcl
