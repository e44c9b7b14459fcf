import Wcl.Proofs.Template.Evaluation
import Wcl.Proofs.Text.Scan
import Wcl.Template.Resolve

/-!
# Substitution evaluates

Resolving a text of references whose variables are not to be expanded gives
what the text stands for: `Context.resolveSingle_agrees_eval`.

Every pass of the substitution is a rewriting (`rewrites_of_substitute`,
`rewrites_of_turn`, `rewrites_of_untilStable`), and where it stops without a
change no token is left.  A text that stands for something has a value for each
token, and a replacement takes an evaluation out of the derivation, so a
derivation with fewer evaluations than the limits has the passes end
(`exists_substitute`, `exists_turn`, `exists_untilStable`).
-/

namespace Wcl

namespace Context

variable {c : Context} {inner : (name value : Text) → Traced Text} {template : Text} {form : Form}
  {item item' : Combination} {limit : Nat} {changed : Bool}

/-! ### One token -/

/-- What a variable with a plain name is replaced with. -/
theorem result_variableValue? (hexp : c.expand = false) {name : Text} (hname : ':' ∉ name) :
    (c.variableValue? inner name).result = match c.document.find? c.scope name with
      | none => .ok none
      | some (.nested _) => .error (.notScalar name)
      | some (.scalar v) =>
        .ok (some ⟨v, if Text.isMultiValued v then none else some (name, v)⟩) := by
  have hcut : Text.cutAt ':' name = (name, none) := Text.cutAt_of_notMem hname
  simp only [variableValue?, Token.nameIn, Token.widthIn?, hcut]
  cases c.document.find? c.scope name with
  | none => rfl
  | some value =>
    cases value with
    | nested d => rfl
    | scalar v =>
      dsimp only
      split <;> simp [hexp]

section Reference

variable {token : Token} (hexp : c.expand = false)
  (hr : IsReference form token.body token.spelling)

include hexp hr

theorem result_replacement? :
    (c.replacement? inner form token.body).result =
      match c.document.find? c.scope token.body with
      | none => .ok none
      | some (.nested _) => .error (.notScalar token.body)
      | some (.scalar v) =>
        .ok (some ⟨v, if Text.isMultiValued v then none else some (token.body, v)⟩) := by
  rcases hr.isVariable with rfl | rfl <;> exact result_variableValue? hexp hr.colon

/-- A pass that goes on has put for the token what stands for it. -/
theorem stands_of_substitute (hf : Token.first? form.kind item.text = some token)
    (h : (c.substitute inner template form (limit + 1) item).result = .ok (item', changed)) :
    ∃ v item₁ changed₁, Stands c form token.body v ∧
      item₁.text = Text.replaceAll token.spelling v item.text ∧
      (c.substitute inner template form limit item₁).result = .ok (item', changed₁) ∧
      (form = .required → changed = true) := by
  unfold substitute at h
  rw [hf] at h
  obtain ⟨new?, hnew, h⟩ := Traced.bind_eq_ok.1 h
  rw [result_replacement? hexp hr] at hnew
  split at hnew
  · next hfind =>
    cases hnew
    dsimp only at h
    split at h
    · cases h
    · next hform =>
      obtain rfl := hr.isVariable.resolve_right hform
      exact ⟨[], _, changed, .nothing hfind, rfl, h, fun he => absurd he hform⟩
  · cases hnew
  · next v hfind =>
    cases hnew
    obtain ⟨⟨item₂, changed₂⟩, hsub, h⟩ := Traced.bind_eq_ok.1 h
    cases h
    exact ⟨v, _, changed₂, .value hfind, rfl, hsub, fun _ => rfl⟩

/-- A pass goes on with what stands for the token. -/
theorem substitute_of_stands (inner : (name value : Text) → Traced Text) (template : Text)
    (limit : Nat) (hf : Token.first? form.kind item.text = some token) {v : Text}
    (hv : Stands c form token.body v) :
    ∃ item₁ : Combination, item₁.text = Text.replaceAll token.spelling v item.text ∧
      ∀ r, (c.substitute inner template form limit item₁).result = .ok r →
        ∃ changed, (c.substitute inner template form (limit + 1) item).result
          = .ok (r.1, changed) := by
  have hrep : (c.replacement? inner form token.body).result = _ := result_replacement? hexp hr
  cases hv with
  | value hv =>
    rw [hv] at hrep
    refine ⟨item.substitute token ⟨v, if Text.isMultiValued v then none else some (token.body, v)⟩,
      rfl, fun r h => ⟨true, ?_⟩⟩
    unfold substitute
    rw [hf]
    refine Traced.bind_eq_ok.2 ⟨_, hrep, ?_⟩
    exact Traced.bind_eq_ok.2 ⟨r, h, rfl⟩
  | nothing hv =>
    rw [hv] at hrep
    refine ⟨item.substitute token { text := [] }, rfl, fun r h => ⟨r.2, ?_⟩⟩
    unfold substitute
    rw [hf]
    exact Traced.bind_eq_ok.2 ⟨_, hrep, h⟩

end Reference

theorem substitute_of_none (hf : Token.first? form.kind item.text = none) :
    (c.substitute inner template form limit item).result = .ok (item, false) := by
  unfold substitute
  rw [hf]
  rfl

/-- A turn that changes nothing changes nothing for any form. -/
theorem turn_cons_unchanged {forms : List Form}
    (h : (c.turn inner template (form :: forms) item).result = .ok (item', false)) :
    ∃ item₁, (c.substitute inner template form turnLimit item).result = .ok (item₁, false) ∧
      (c.turn inner template forms item₁).result = .ok (item', false) := by
  obtain ⟨⟨item₁, changed₁⟩, hsub, h⟩ := Traced.bind_eq_ok.1 h
  obtain ⟨⟨item₂, changed₂⟩, hturn, h⟩ := Traced.bind_eq_ok.1 h
  obtain ⟨rfl, hch⟩ := Prod.mk.inj (Except.ok.inj h)
  obtain ⟨rfl, rfl⟩ := Bool.or_eq_false_iff.1 hch
  exact ⟨item₁, hsub, hturn⟩

/-! ### One form -/

section Passes

variable (hc : c.ReferencesInValues) (hexp : c.expand = false) (ht : ReferencesOnly item.text)

include hc hexp ht

theorem rewrites_of_substitute
    (h : (c.substitute inner template form limit item).result = .ok (item', changed)) :
    ∃ k, Rewrites c k item.text item'.text ∧ Token.first? form.kind item'.text = none ∧
      (changed = true → 0 < k) ∧ (form = .required → changed = false → item' = item) := by
  induction limit generalizing item changed with
  | zero =>
    cases hf : Token.first? form.kind item.text with
    | none =>
      rw [substitute_of_none hf] at h
      cases h
      exact ⟨0, .refl, hf, nofun, fun _ _ => rfl⟩
    | some token =>
      unfold substitute at h
      rw [hf] at h
      cases h
  | succ limit ih =>
    cases hf : Token.first? form.kind item.text with
    | none =>
      rw [substitute_of_none hf] at h
      cases h
      exact ⟨0, .refl, hf, nofun, fun _ _ => rfl⟩
    | some token =>
      have hr := ht.isReference_of_first? hf
      obtain ⟨v, item₁, changed₁, hv, htext, hsub, hreq⟩ := stands_of_substitute hexp hr hf h
      have ht₁ : ReferencesOnly item₁.text := by
        rw [htext]
        exact ht.replaceAll hr.isSpelling (hv.referencesOnly hc)
      obtain ⟨k, hk, hnone, _, _⟩ := ih ht₁ hsub
      rw [htext] at hk
      refine ⟨k + 1, .step hf hv hk, hnone, fun _ => Nat.succ_pos k, fun hform hch => ?_⟩
      rw [hreq hform] at hch
      cases hch

theorem exists_substitute (inner : (name value : Text) → Traced Text) (template : Text)
    (form : Form) {n : Nat} {s : Text} (hs : Eval c n item.text s) (hn : n ≤ limit) :
    ∃ r, (c.substitute inner template form limit item).result = .ok r := by
  induction limit generalizing item n with
  | zero =>
    cases hf : Token.first? form.kind item.text with
    | none => exact ⟨_, substitute_of_none hf⟩
    | some token =>
      obtain ⟨v, hv⟩ := hs.exists_stands ht hf
      obtain ⟨_, _, _, hlt⟩ := hs.replaceAll (ht.isReference_of_first? hf) hv ht
      have hlt := hlt hf
      omega
  | succ limit ih =>
    cases hf : Token.first? form.kind item.text with
    | none => exact ⟨_, substitute_of_none hf⟩
    | some token =>
      have hr := ht.isReference_of_first? hf
      obtain ⟨v, hv⟩ := hs.exists_stands ht hf
      obtain ⟨m, hm, _, hlt⟩ := hs.replaceAll hr hv ht
      have hlt := hlt hf
      obtain ⟨item₁, htext, hstep⟩ := substitute_of_stands hexp hr inner template limit hf hv
      have ht₁ : ReferencesOnly item₁.text := by
        rw [htext]
        exact ht.replaceAll hr.isSpelling (hv.referencesOnly hc)
      rw [← htext] at hm
      obtain ⟨r, hsub⟩ := ih ht₁ hm (by omega)
      obtain ⟨changed, hres⟩ := hstep r hsub
      exact ⟨_, hres⟩

/-! ### Turns -/

theorem rewrites_of_turn {forms : List Form}
    (h : (c.turn inner template forms item).result = .ok (item', changed)) :
    ∃ k, Rewrites c k item.text item'.text ∧ (changed = true → 0 < k) := by
  induction forms generalizing item changed with
  | nil =>
    cases h
    exact ⟨0, .refl, nofun⟩
  | cons form forms ih =>
    obtain ⟨⟨item₁, changed₁⟩, hsub, h⟩ := Traced.bind_eq_ok.1 h
    obtain ⟨⟨item₂, changed₂⟩, hturn, h⟩ := Traced.bind_eq_ok.1 h
    cases h
    obtain ⟨k, hk, _, hpos, _⟩ := rewrites_of_substitute hc hexp ht hsub
    obtain ⟨j, hj, hpos'⟩ := ih (hk.referencesOnly hc ht) hturn
    refine ⟨k + j, hk.trans hj, fun hch => ?_⟩
    rcases Bool.or_eq_true_iff.1 hch with hch | hch
    · have hk := hpos hch
      omega
    · have hj := hpos' hch
      omega

theorem exists_turn (inner : (name value : Text) → Traced Text) (template : Text)
    (forms : List Form) {n : Nat} {s : Text} (hs : Eval c n item.text s) (hn : n ≤ turnLimit) :
    ∃ r, (c.turn inner template forms item).result = .ok r := by
  induction forms generalizing item n with
  | nil => exact ⟨_, rfl⟩
  | cons form forms ih =>
    obtain ⟨⟨item₁, changed₁⟩, hsub⟩ := exists_substitute hc hexp ht inner template form hs hn
    obtain ⟨k, hk, _⟩ := rewrites_of_substitute hc hexp ht hsub
    obtain ⟨m, hm, hle⟩ := hk.eval_of_eval hc ht hs
    obtain ⟨r, hturn⟩ := ih (hk.referencesOnly hc ht) hm (by omega)
    exact ⟨_, Traced.bind_eq_ok.2 ⟨_, hsub, Traced.bind_eq_ok.2 ⟨r, hturn, rfl⟩⟩⟩

/-- A turn that changes nothing leaves no dollar sign. -/
theorem notMem_of_turn
    (h : (c.turn inner template [.header, .optional, .required] item).result
      = .ok (item', false)) : '$' ∉ item'.text := by
  obtain ⟨item₁, hhead, h⟩ := turn_cons_unchanged h
  obtain ⟨item₂, hopt, h⟩ := turn_cons_unchanged h
  obtain ⟨item₃, hreq, h⟩ := turn_cons_unchanged h
  cases h
  obtain ⟨_, hk, _⟩ := rewrites_of_substitute hc hexp ht hhead
  have ht₁ := hk.referencesOnly hc ht
  obtain ⟨_, hk, hnoopt, _⟩ := rewrites_of_substitute hc hexp ht₁ hopt
  have ht₂ := hk.referencesOnly hc ht₁
  obtain ⟨_, _, hnoreq, _, hsame⟩ := rewrites_of_substitute hc hexp ht₂ hreq
  obtain rfl := hsame rfl rfl
  exact ht₂.notMem_of_first? hnoopt hnoreq

theorem rewrites_of_untilStable
    (h : (c.untilStable inner template [.header, .optional, .required] limit item).result
      = .ok item') : ∃ k, Rewrites c k item.text item'.text ∧ '$' ∉ item'.text := by
  induction limit generalizing item with
  | zero => cases h
  | succ limit ih =>
    obtain ⟨⟨item₁, changed⟩, hturn, h⟩ := Traced.bind_eq_ok.1 h
    obtain ⟨k, hk, _⟩ := rewrites_of_turn hc hexp ht hturn
    cases changed with
    | true =>
      obtain ⟨j, hj, hplain⟩ := ih (hk.referencesOnly hc ht) h
      exact ⟨k + j, hk.trans hj, hplain⟩
    | false =>
      cases h
      exact ⟨k, hk, notMem_of_turn hc hexp ht hturn⟩

theorem exists_untilStable (inner : (name value : Text) → Traced Text) (template : Text)
    {n : Nat} {s : Text} (hs : Eval c n item.text s) (hn : n < limit) (hlimit : limit ≤ turnLimit) :
    ∃ item', (c.untilStable inner template [.header, .optional, .required] limit item).result
      = .ok item' := by
  induction limit generalizing item n with
  | zero => omega
  | succ limit ih =>
    obtain ⟨⟨item₁, changed⟩, hturn⟩ := exists_turn hc hexp ht inner template
      [.header, .optional, .required] hs (by omega)
    obtain ⟨k, hk, hpos⟩ := rewrites_of_turn hc hexp ht hturn
    cases changed with
    | true =>
      obtain ⟨m, hm, hle⟩ := hk.eval_of_eval hc ht hs
      have hk' := hpos rfl
      obtain ⟨item', hrest⟩ := ih (hk.referencesOnly hc ht) hm (by omega) (by omega)
      exact ⟨item', Traced.bind_eq_ok.2 ⟨_, hturn, hrest⟩⟩
    | false => exact ⟨item₁, Traced.bind_eq_ok.2 ⟨_, hturn, rfl⟩⟩

end Passes

/-! ### A whole template -/

/-- Where no form has a token a turn changes nothing. -/
theorem turn_of_none {forms : List Form}
    (h : ∀ form ∈ forms, Token.first? form.kind item.text = none) :
    (c.turn inner template forms item).result = .ok (item, false) := by
  induction forms with
  | nil => rfl
  | cons form forms ih =>
    obtain ⟨hform, hforms⟩ := List.forall_mem_cons.1 h
    exact Traced.bind_eq_ok.2
      ⟨_, substitute_of_none hform, Traced.bind_eq_ok.2 ⟨_, ih hforms, rfl⟩⟩

/-- Where no form has a token the substitution stops at once. -/
theorem untilStable_of_none {forms : List Form}
    (h : ∀ form ∈ forms, Token.first? form.kind item.text = none) :
    (c.untilStable inner template forms (limit + 1) item).result = .ok item :=
  Traced.bind_eq_ok.2 ⟨_, turn_of_none h, rfl⟩

/-- A text without dollar signs is left as it is. -/
theorem untilStable_of_notMem {forms : List Form} (hplain : '$' ∉ item.text) :
    (c.untilStable inner template forms (limit + 1) item).result = .ok item :=
  untilStable_of_none fun form _ => Token.first?_of_notMem form.head?_opener hplain

/-- A template resolves to the text where the substitution stops. -/
theorem result_resolveWith (hc : c.ReferencesInValues) (hexp : c.expand = false)
    (ht : ReferencesOnly template) {r : Resolved} :
    (c.resolveWith inner template).result = .ok r ↔
      ∃ item, (c.untilStable inner template [.header, .optional, .required] turnLimit
        ⟨template, []⟩).result = .ok item ∧ r = .single item := by
  have hloops : ∀ {item : Combination}, '$' ∉ item.text → hasLoops item.text = false := by
    intro item hplain
    rw [hasLoops, Token.first?_of_notMem rfl hplain]
    rfl
  constructor
  · intro h
    obtain ⟨_, _, h⟩ := Traced.bind_eq_ok.1 h
    obtain ⟨item', hall, h⟩ := Traced.bind_eq_ok.1 h
    obtain ⟨item, hvars, hfuncs⟩ := Traced.bind_eq_ok.1 hall
    obtain ⟨_, _, hplain⟩ := rewrites_of_untilStable hc hexp ht hvars
    rw [turnLimit, untilStable_of_notMem hplain] at hfuncs
    cases hfuncs
    rw [hloops hplain] at h
    cases h
    exact ⟨_, hvars, rfl⟩
  · rintro ⟨item, hvars, rfl⟩
    obtain ⟨_, _, hplain⟩ := rewrites_of_untilStable hc hexp ht hvars
    refine Traced.bind_eq_ok.2 ⟨(), rfl, ?_⟩
    refine Traced.bind_eq_ok.2 ⟨item, ?_, ?_⟩
    · exact Traced.bind_eq_ok.2 ⟨item, hvars, untilStable_of_notMem hplain⟩
    · rw [hloops hplain]
      rfl

/-- The bound on the depth of resolving is not met at the start, and no value is
being resolved there. -/
theorem exists_inner (c : Context) :
    ∃ inner, ∀ template, c.resolve template = c.resolveWith inner template := by
  have hpos : 0 < c.depthBound := Nat.pow_pos (by decide)
  obtain ⟨depth, hdepth⟩ := Nat.exists_eq_succ_of_ne_zero (Nat.pos_iff_ne_zero.1 hpos)
  refine ⟨fun name value => .between (.entered name) (.left name) do
    let resolved ← c.resolveIn depth [name] value
    .ofExcept (resolved.only value), fun template => ?_⟩
  rw [resolve, hdepth, resolveIn]
  simp only [List.not_mem_nil, if_false]

theorem exists_resolve_eq (c : Context) (template : Text) :
    ∃ inner, c.resolve template = c.resolveWith inner template := by
  obtain ⟨inner, hinner⟩ := c.exists_inner
  exact ⟨inner, hinner template⟩

/-- A text without dollar signs resolves to itself. -/
theorem resolveSingle_of_notMem (c : Context) {t : Text} (h : '$' ∉ t) :
    (c.resolveSingle t).result = .ok t := by
  obtain ⟨inner, hinner⟩ := c.exists_resolve_eq t
  have hloops : hasLoops t = false := by
    rw [hasLoops, Token.first?_of_notMem rfl h]
    rfl
  have hall : (c.substituteAll inner t).result = .ok ⟨t, []⟩ :=
    Traced.bind_eq_ok.2 ⟨⟨t, []⟩, untilStable_of_notMem h, untilStable_of_notMem h⟩
  refine Traced.bind_eq_ok.2 ⟨.single ⟨t, []⟩, ?_, rfl⟩
  rw [hinner]
  refine Traced.bind_eq_ok.2 ⟨(), rfl, Traced.bind_eq_ok.2 ⟨_, hall, ?_⟩⟩
  rw [hloops]
  rfl

/-- **Substitution agrees with evaluation.**  What a text of references resolves
to it stands for, and what it stands for by a derivation with fewer evaluations
than there may be turns it resolves to. -/
theorem resolveSingle_agrees_eval (c : Context) (hc : c.ReferencesInValues)
    (hexp : c.expand = false) (template : Text) (ht : ReferencesOnly template) :
    (∀ s, (c.resolveSingle template).result = .ok s → ∃ n, Eval c n template s) ∧
      ∀ n s, Eval c n template s → n ≤ 99 → (c.resolveSingle template).result = .ok s := by
  obtain ⟨inner, hinner⟩ := c.exists_resolve_eq template
  constructor
  · intro s h
    obtain ⟨r, hres, h⟩ := Traced.bind_eq_ok.1 h
    rw [hinner] at hres
    obtain ⟨item, hvars, rfl⟩ := (result_resolveWith hc hexp ht).1 hres
    obtain ⟨_, hk, hplain⟩ := rewrites_of_untilStable hc hexp ht hvars
    cases h
    exact hk.eval hc ht (.of_notMem hplain)
  · intro n s hs hn
    have hseed : ReferencesOnly (Combination.mk template []).text := ht
    obtain ⟨item, hvars⟩ := exists_untilStable hc hexp hseed inner template hs
      (Nat.lt_succ_of_le hn) (Nat.le_refl turnLimit)
    obtain ⟨_, hk, hplain⟩ := rewrites_of_untilStable hc hexp ht hvars
    obtain ⟨m, hm, _⟩ := hk.eval_of_eval hc ht hs
    refine Traced.bind_eq_ok.2 ⟨.single item, ?_, ?_⟩
    · rw [hinner]
      exact (result_resolveWith hc hexp ht).2 ⟨item, hvars, rfl⟩
    · rw [hm.eq_of_notMem hplain]
      rfl

/-- Two references to one variable, one of them in the value of another, and an
optional one that is missing, in capital letters. -/
theorem resolveSingle_agrees_eval_shared :
    let c : Context :=
      ⟨.ofList [("a".toList, .scalar "<$\x7bb\x7d>".toList), ("b".toList, .scalar "x".toList)],
        {}, false, none⟩
    let t := "$\x7ba\x7d-$\x7bb\x7d$OPT\x7bc\x7d".toList
    c.ReferencesInValues ∧ c.expand = false ∧ ReferencesOnly t ∧ Eval c 4 t "<x>-x".toList ∧
      (c.resolveSingle t).result = .ok "<x>-x".toList := by
  intro c t
  have hc : c.ReferencesInValues := Context.referencesInValues_of_scalars (by decide)
  have ht : ReferencesOnly t := by decide
  have ha : IsReference .required "a".toList "$\x7ba\x7d".toList :=
    ⟨.inr rfl, by decide, by decide, by decide, by decide, "$\x7b".toList, rfl, rfl⟩
  have hb : IsReference .required "b".toList "$\x7bb\x7d".toList :=
    ⟨.inr rfl, by decide, by decide, by decide, by decide, "$\x7b".toList, rfl, rfl⟩
  have hopt : IsReference .optional "c".toList "$OPT\x7bc\x7d".toList :=
    ⟨.inl rfl, by decide, by decide, by decide, by decide, "$OPT\x7b".toList, by decide, rfl⟩
  have hx : ∀ {n t s}, Eval c n t s →
      Eval c (0 + n + 1) ("$\x7bb\x7d".toList ++ t) ("x".toList ++ s) :=
    .found hb (by decide) (.of_notMem (by decide))
  have hinner : Eval c 1 "<$\x7bb\x7d>".toList "<x>".toList :=
    .char (by decide) (hx (.of_notMem (by decide)))
  have hs : Eval c 4 t "<x>-x".toList :=
    .found ha (by decide) hinner (.char (by decide) (hx (.missing hopt (by decide) .nil)))
  exact ⟨hc, rfl, ht, hs, (c.resolveSingle_agrees_eval hc rfl t ht).2 4 _ hs (by decide)⟩

end Context

end Wcl
