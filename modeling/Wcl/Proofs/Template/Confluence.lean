import Mathlib.Logic.Relation
import Wcl.Proofs.Template.Stages

/-!
# The order of substitution does not matter

One exchange puts something for one token at one place of a text
(`Context.Exchanges`).  Tokens do not overlap, so two exchanges at different
places can be made one after the other in either order
(`Context.Exchanges.diamond`), and however the exchanges are made, they end in
the same text (`Context.Exchanges.unique`).

Replacing a token everywhere is a number of exchanges, so is a stage of the
resolution, and it ends where no exchange is left.  So the value of a key comes
out the same whether the resolution begins with a reference to the key or with
its value: `Context.getFull_eq_reference`.
-/

namespace Wcl

namespace Context

variable {c : Context} {inner : (name value : Text) → Traced Text} {template : Text}
  {forms : List Form} {form : Form} {token : Token} {t a b v : Text}

/-! ### Exchanges -/

/-- One token of some forms is exchanged for what is put for it. -/
inductive Exchanges (c : Context) (inner : (name value : Text) → Traced Text)
    (forms : List Form) : Text → Text → Prop
  | intro {form : Form} {token : Token} {v : Text} (front back : Text) : form ∈ forms →
    IsToken (.form form) token → c.Puts inner form token v →
    Exchanges c inner forms (front ++ (token.spelling ++ back)) (front ++ (v ++ back))

/-- Exchanges one after another. -/
abbrev Exchanged (c : Context) (inner : (name value : Text) → Traced Text)
    (forms : List Form) : Text → Text → Prop :=
  Relation.ReflTransGen (c.Exchanges inner forms)

/-- Of two spellings in a text that begin at different places, the later one
stands behind the other. -/
theorem exists_between {s s' m q q' : Text} (hs : IsSpelling s) (hs' : IsSpelling s') (hm : m ≠ [])
    (h : s ++ q = m ++ (s' ++ q')) : ∃ r, m = s ++ r ∧ q = r ++ (s' ++ q') := by
  rcases List.append_eq_append_iff.1 h with ⟨r, hr, hq⟩ | ⟨r, hr, hq⟩
  · exact ⟨r, hr, hq⟩
  · obtain ⟨w, hw, hdollar⟩ := hs.exists_cons
    obtain ⟨w', hw', _⟩ := hs'.exists_cons
    obtain ⟨ch, m, rfl⟩ := List.exists_cons_of_ne_nil hm
    cases r with
    | nil => exact ⟨[], by simpa using hr.symm, by simpa using hq.symm⟩
    | cons ch' r =>
      -- The later one would begin inside the other.
      rw [hw', List.cons_append, List.cons_append] at hq
      rw [hw, List.cons_append] at hr
      obtain ⟨rfl, _⟩ := List.cons.inj hq
      refine absurd ?_ hdollar
      rw [(List.cons.inj hr).2]
      simp

namespace Exchanges

/-- Two exchanges in a text, the first of them not behind the second. -/
theorem diamond_of_front {form' : Form} {token' : Token} {v' m q q' : Text} (p : Text)
    (hform : form ∈ forms) (hform' : form' ∈ forms)
    (htoken : IsToken (.form form) token) (htoken' : IsToken (.form form') token')
    (hputs : c.Puts inner form token v) (hputs' : c.Puts inner form' token' v')
    (h : token.spelling ++ q = m ++ (token'.spelling ++ q')) :
    p ++ (v ++ q) = p ++ m ++ (v' ++ q') ∨
      ∃ d, c.Exchanges inner forms (p ++ (v ++ q)) d ∧
        c.Exchanges inner forms (p ++ m ++ (v' ++ q')) d := by
  by_cases hm : m = []
  · subst hm
    obtain ⟨hsame, rfl⟩ := htoken.isSpelling.append_inj htoken'.isSpelling h
    obtain ⟨huse, rfl⟩ := htoken.unique htoken' hsame
    obtain rfl := Use.form.inj huse
    obtain rfl := hputs.unique hputs'
    exact .inl (by rw [List.append_nil])
  · obtain ⟨r, rfl, rfl⟩ := exists_between htoken.isSpelling htoken'.isSpelling hm h
    refine .inr ⟨p ++ (v ++ (r ++ (v' ++ q'))), ?_, ?_⟩
    · have hlater := Exchanges.intro (c := c) (p ++ v ++ r) q' hform' htoken' hputs'
      simpa using hlater
    · have hfirst := Exchanges.intro (c := c) p (r ++ (v' ++ q')) hform htoken hputs
      simpa using hfirst

/-- Two exchanges come to the same text, or another one after each does. -/
theorem diamond (h : c.Exchanges inner forms t a) (h' : c.Exchanges inner forms t b) :
    a = b ∨ ∃ d, c.Exchanges inner forms a d ∧ c.Exchanges inner forms b d := by
  obtain ⟨p, q, hform, htoken, hputs⟩ := h
  generalize ht : p ++ _ = t at h'
  obtain ⟨p', q', hform', htoken', hputs'⟩ := h'
  rcases List.append_eq_append_iff.1 ht with ⟨m, rfl, hm⟩ | ⟨m, rfl, hm⟩
  · exact diamond_of_front p hform hform' htoken htoken' hputs hputs' hm
  · rcases diamond_of_front p' hform' hform htoken' htoken hputs' hputs hm with he | ⟨d, hd, hd'⟩
    · exact .inl he.symm
    · exact .inr ⟨d, hd', hd⟩

/-- A spelling stays where a token of another spelling is exchanged. -/
theorem keeps {s : Text} (h : c.Exchanges inner forms t a) (hs : IsSpelling s)
    (hother : ∀ form ∈ forms, ∀ token v, IsToken (.form form) token →
      c.Puts inner form token v → s ≠ token.spelling)
    (hin : s <:+: t) : s <:+: a := by
  obtain @⟨form, token, v, front, back, hform, htoken, hputs⟩ := h
  have hne := hother _ hform _ _ htoken hputs
  obtain ⟨p, q, hpq⟩ := hin
  rw [List.append_assoc] at hpq
  rcases List.append_eq_append_iff.1 hpq with ⟨m, rfl, hm⟩ | ⟨m, rfl, hm⟩
  · have hnil : m ≠ [] := fun h => hne (hs.append_inj htoken.isSpelling (h ▸ hm)).1
    obtain ⟨r, rfl, _⟩ := exists_between hs htoken.isSpelling hnil hm
    exact ⟨p, r ++ (v ++ back), by simp⟩
  · have hnil : m ≠ [] := fun h => hne (hs.append_inj htoken.isSpelling (h ▸ hm).symm).1
    obtain ⟨r, _, rfl⟩ := exists_between htoken.isSpelling hs hnil hm
    exact ⟨front ++ (v ++ r), q, by simp⟩

/-- Where exchanges lead to a text with none left, they lead there from every text
on the way. -/
theorem exchanged_of_stop (h : c.Exchanged inner forms t a) (h' : c.Exchanged inner forms t b)
    (hb : ∀ d, ¬ c.Exchanges inner forms b d) : c.Exchanged inner forms a b := by
  have hjoin : Relation.Join (c.Exchanged inner forms) a b := by
    refine Relation.church_rosser (fun x y z hy hz => ?_) h h'
    rcases hy.diamond hz with rfl | ⟨d, hd, hd'⟩
    · exact ⟨y, .refl, .refl⟩
    · exact ⟨d, .single hd, .single hd'⟩
  obtain ⟨d, had, hbd⟩ := hjoin
  rcases hbd.cases_head with rfl | ⟨x, hx, _⟩
  · exact had
  · exact absurd hx (hb x)

/-- However exchanges are made, where none is left the text is the same. -/
theorem unique (h : c.Exchanged inner forms t a) (h' : c.Exchanged inner forms t b)
    (ha : ∀ d, ¬ c.Exchanges inner forms a d) (hb : ∀ d, ¬ c.Exchanges inner forms b d) :
    a = b := by
  rcases (exchanged_of_stop h h' hb).cases_head with rfl | ⟨x, hx, _⟩
  · rfl
  · exact absurd hx (ha x)

end Exchanges

/-! ### Stages are exchanges -/

/-- Replacing a token everywhere is a number of exchanges. -/
theorem exchanged_replaceAll (hform : form ∈ forms) (htoken : IsToken (.form form) token)
    (hputs : c.Puts inner form token v) (p t : Text) :
    c.Exchanged inner forms (p ++ t) (p ++ Text.replaceAll token.spelling v t) := by
  induction t using Text.replaceAll_induction htoken.isSpelling.ne_nil generalizing p with
  | nil => exact .refl
  | front r ih =>
    rw [Text.replaceAll_append htoken.isSpelling.ne_nil]
    refine .head (.intro p r hform htoken hputs) ?_
    have hrest := ih (p ++ v)
    rwa [List.append_assoc, List.append_assoc] at hrest
  | char ch r hfront ih =>
    rw [Text.replaceAll_cons_of_unmatched hfront]
    have hrest := ih (p ++ [ch])
    simpa using hrest

/-- The turns of a stage are exchanges. -/
theorem Turns.exchanged {start before stop : Combination}
    (h : c.Turns inner template forms start before stop) :
    c.Exchanged inner forms start.text stop.text := by
  have hpass : ∀ form ∈ forms, ∀ {item item' : Combination} {changed : Bool},
      c.Passes inner form item item' changed → c.Exchanged inner forms start.text item.text →
        c.Exchanged inner forms start.text item'.text := by
    intro form hform item item' changed hpasses hitem
    refine hpasses.preserves (fun hf hputs ht => ht.trans ?_) hitem
    exact exchanged_replaceAll hform (Form.isToken_of_first? hf).1 hputs [] _
  exact (h.preserves (P := fun item => c.Exchanged inner forms start.text item.text) hpass .refl).2

/-- Where a text has no token of a form nothing is exchanged. -/
theorem not_exchanges (h : ∀ form ∈ forms, ∀ token v, c.Puts inner form token v →
    Token.first? form.kind t = none) (d : Text) : ¬ c.Exchanges inner forms t d := by
  intro hex
  obtain ⟨p, q, hform, htoken, hputs⟩ := hex
  refine htoken.first?_ne_none ⟨p, q, ?_⟩ (h _ hform _ _ hputs)
  rw [List.append_assoc]

/-! ### Both stages end in the same text -/

/-- Without a header reader nothing is put for a header. -/
theorem not_puts_header (hreader : ∀ r ∈ c.registry, r.headerReader = none) :
    ¬ c.Puts inner .header token v := by
  intro hputs
  have hfails : ∀ t, c.header token.body ≠ .ok t := by
    intro t
    unfold header
    split
    · exact nofun
    · next r hr =>
      split
      · exact nofun
      · rw [Registry.readHeaders, hreader r hr]
        exact nofun
  cases hputs with
  | found h =>
    obtain ⟨t, ht, _⟩ := Traced.bind_eq_ok.1 h
    exact hfails t ht
  | missing hform _ => cases hform

/-- Where variables have settled and left no header nothing is exchanged. -/
theorem Turns.settled_of_lacks {start before stop : Combination}
    (h : c.Turns inner template [.header, .optional, .required] start before stop)
    (hheader : Lacks [.header] stop.text) (d : Text) :
    ¬ c.Exchanges inner [.header, .optional, .required] stop.text d := by
  obtain ⟨_, hlacks, _⟩ := lacks_of_turn h.result_turn
  refine not_exchanges (fun form hform _ _ _ => ?_) d
  rcases List.mem_cons.1 hform with rfl | hform
  · exact hheader _ (List.mem_singleton_self _)
  · exact hlacks form hform

/-- Where variables have settled nothing is exchanged. -/
theorem Turns.settled (hreader : ∀ r ∈ c.registry, r.headerReader = none)
    {start before stop : Combination}
    (h : c.Turns inner template [.header, .optional, .required] start before stop) (d : Text) :
    ¬ c.Exchanges inner [.header, .optional, .required] stop.text d := by
  obtain ⟨_, hlacks, _⟩ := lacks_of_turn h.result_turn
  refine not_exchanges (fun form hform token v hputs => ?_) d
  rcases List.mem_cons.1 hform with rfl | hform
  · exact absurd hputs (not_puts_header hreader)
  · exact hlacks form hform

theorem Turns.called {start before stop : Combination}
    (h : c.Turns inner template [.function] start before stop) (d : Text) :
    ¬ c.Exchanges inner [.function] stop.text d := by
  obtain ⟨_, hlacks⟩ := lacks_of_function_turn h.result_turn
  exact not_exchanges (fun form hform _ _ _ => hlacks form hform) d

/-! ### Expansion does not see the bindings -/

section Loops

variable {item item' : Combination}

/-- Computations that go on alike from what looks alike look alike. -/
theorem map_bind_congr {α β γ δ ε : Type} {x y : Except ε α} {f g : α → Except ε β} {π : α → γ}
    {ρ : β → δ} (h : x.map π = y.map π)
    (hfg : ∀ a b, π a = π b → (f a).map ρ = (g b).map ρ) :
    (x >>= f).map ρ = (y >>= g).map ρ := by
  cases x with
  | error e =>
    cases y with
    | error e' =>
      cases h
      rfl
    | ok b => cases h
  | ok a =>
    cases y with
    | error e' => cases h
    | ok b => exact hfg a b (Except.ok.inj h)

theorem text_assign (h : item.text = item'.text) (token : Token) (value : Text) :
    (assign item token value).map Combination.text =
      (assign item' token value).map Combination.text := by
  unfold assign
  dsimp only
  rw [h]
  split
  · rfl
  · split <;> rfl

theorem texts_mapM_assign (h : item.text = item'.text) (token : Token) (values : List Text) :
    (values.mapM (assign item token)).map (List.map Combination.text) =
      (values.mapM (assign item' token)).map (List.map Combination.text) := by
  induction values with
  | nil => rfl
  | cons value values ih =>
    rw [List.mapM_cons, List.mapM_cons]
    refine map_bind_congr (text_assign h token value) fun a b hab => ?_
    refine map_bind_congr ih fun as bs hs => ?_
    exact congrArg Except.ok (by rw [List.map_cons, List.map_cons, hab, hs])

theorem texts_expandStack (c : Context) (template : Text) (budget : Nat)
    {stack stack' : List Combination}
    (h : stack.map Combination.text = stack'.map Combination.text) :
    (c.expandStack template budget stack).map (List.map Combination.text) =
      (c.expandStack template budget stack').map (List.map Combination.text) := by
  induction budget using Nat.strong_induction_on generalizing stack stack' with
  | _ budget ih =>
  cases stack with
  | nil =>
    obtain rfl := List.map_eq_nil_iff.1 h.symm
    rfl
  | cons item stack =>
    obtain ⟨item', stack', rfl, hitem, hstack⟩ := List.map_eq_cons_iff.1 h.symm
    cases budget with
    | zero =>
      rw [expandStack, expandStack]
    | succ budget =>
      rw [expandStack, expandStack, hitem]
      cases Token.first? loopKind item.text with
      | none =>
        refine map_bind_congr (ih budget (Nat.lt_succ_self _) hstack.symm) fun as bs hs => ?_
        exact congrArg Except.ok (by rw [List.map_cons, List.map_cons, hitem, hs])
      | some token =>
        have hsame : ((c.loopValues template budget token).map id) =
            (c.loopValues template budget token).map id := rfl
        refine map_bind_congr hsame fun values values' hvalues => ?_
        obtain rfl : values = values' := hvalues
        refine map_bind_congr (texts_mapM_assign hitem.symm token values) fun as bs hs => ?_
        have hfilter : ∀ p : Text → Bool, (as.filter (p ·.text)).map Combination.text =
            (bs.filter (p ·.text)).map Combination.text := by
          intro p
          have hmap := congrArg (List.filter p) hs
          rwa [List.filter_map, List.filter_map] at hmap
        refine map_bind_congr (ih _ (by omega) ?_) fun as' bs' hs' => ?_
        · rw [List.map_append, List.map_append, List.map_reverse, List.map_reverse,
            hfilter hasLoops, hstack]
        · refine congrArg Except.ok ?_
          rw [List.map_append, List.map_append, hfilter (!hasLoops ·), hs']

/-- What is left of a template comes to one text: its own if its loops have no
values or it has none, or that of the only combination. -/
def ComesTo (c : Context) (item : Combination) (s : Text) : Prop :=
  ∃ texts, (if hasLoops item.text then (c.expandLoops item).map (List.map Combination.text)
      else .ok []) = .ok texts ∧
    (texts = [] ∧ s = item.text ∨ texts = [s])

theorem ComesTo.congr {s : Text} (h : c.ComesTo item s) (hitem : item.text = item'.text) :
    c.ComesTo item' s := by
  obtain ⟨texts, htexts, hs⟩ := h
  have hloops : (c.expandLoops item).map (List.map Combination.text) =
      (c.expandLoops item').map (List.map Combination.text) := by
    rw [expandLoops, expandLoops, hitem]
    exact texts_expandStack c item'.text loopBudget (congrArg ([·]) hitem)
  rw [hloops, hitem] at htexts
  exact ⟨texts, htexts, hitem ▸ hs⟩

theorem ComesTo.unique {s s' : Text} (h : c.ComesTo item s) (h' : c.ComesTo item' s')
    (hitem : item.text = item'.text) : s = s' := by
  obtain ⟨texts, htexts, hs⟩ := h.congr hitem
  obtain ⟨texts', htexts', hs'⟩ := h'
  rw [htexts'] at htexts
  cases htexts
  rcases hs with ⟨rfl, rfl⟩ | rfl
  · rcases hs' with ⟨_, rfl⟩ | hs'
    · rfl
    · cases hs'
  · rcases hs' with ⟨hs', _⟩ | hs'
    · cases hs'
    · exact List.singleton_inj.1 hs'

end Loops

/-! ### A key and a reference to it -/

/-- The stages behind a template that resolves to one text. -/
theorem exists_stages (hinner : c.resolve template = c.resolveWith inner template) {s : Text}
    (h : (c.resolveSingle template).result = .ok s) :
    ∃ before settled before' called,
      c.Turns inner template [.header, .optional, .required] ⟨template, []⟩ before settled ∧
      c.Turns inner template [.function] settled before' called ∧ c.ComesTo called s := by
  obtain ⟨r, hr, honly⟩ := Traced.bind_eq_ok.1 h
  rw [hinner] at hr
  obtain ⟨_, _, hr⟩ := Traced.bind_eq_ok.1 hr
  obtain ⟨called, hall, hr⟩ := Traced.bind_eq_ok.1 hr
  obtain ⟨settled, hsettled, hcalled⟩ := Traced.bind_eq_ok.1 hall
  obtain ⟨before, hturns⟩ := turns_of_untilStable hsettled
  obtain ⟨before', hcalls⟩ := turns_of_untilStable hcalled
  refine ⟨before, settled, before', called, hturns, hcalls, ?_⟩
  rw [ComesTo]
  split at hr
  · next hloops =>
    obtain ⟨items, hitems, hr⟩ := Traced.bind_eq_ok.1 hr
    rw [if_pos hloops, show c.expandLoops called = .ok items from hitems]
    refine ⟨_, rfl, ?_⟩
    split at hr
    · next hempty =>
      obtain ⟨_, _, hr⟩ := Traced.bind_eq_ok.1 hr
      cases hr
      cases honly
      exact .inl ⟨by rw [List.isEmpty_iff.1 hempty]; rfl, rfl⟩
    · obtain ⟨_, _, hr⟩ := Traced.bind_eq_ok.1 hr
      cases hr
      right
      match items, honly with
      | [item], honly =>
        cases honly
        rfl
  · next hloops =>
    cases hr
    cases honly
    rw [if_neg hloops]
    exact ⟨[], rfl, .inl ⟨rfl, rfl⟩⟩

/-- The key has a value that resolves. -/
theorem exists_of_getFull {required : Bool} {key s : Text}
    (h : (c.getFull required key).result = .ok (some s)) :
    ∃ v, c.document.find? c.scope key = some (.scalar v) ∧ (c.resolveSingle v).result = .ok s := by
  obtain ⟨found, hfound, h⟩ := Traced.bind_eq_ok.1 h
  rw [Traced.result_ofExcept, Document.search] at hfound
  split at hfound
  · next value hvalue =>
    cases hfound
    cases value with
    | nested d => cases h
    | scalar v =>
      obtain ⟨s', hs', h⟩ := Traced.bind_eq_ok.1 h
      cases h
      exact ⟨v, hvalue, hs'⟩
  · split at hfound
    · cases hfound
    · cases hfound
      cases h

/-- The reference to a variable by its plain name, without a width. -/
def reference (key : Text) : Text := "$\x7b".toList ++ (key ++ ['}'])

theorem isReference_reference {key : Text} (hne : key ≠ []) (hdollar : '$' ∉ key)
    (hbrace : '}' ∉ key) (hcolon : ':' ∉ key) : IsReference .required key (reference key) :=
  ⟨.inr rfl, hne, hdollar, hbrace, hcolon, "$\x7b".toList, rfl, rfl⟩

/-- **A key and a reference to it agree.**  Where both resolve, the value of a key
resolves to what the reference to the key resolves to. -/
theorem getFull_eq_reference (c : Context) (hexp : c.expand = false)
    (hreader : ∀ r ∈ c.registry, r.headerReader = none) {required : Bool} {key s t : Text}
    (hne : key ≠ []) (hdollar : '$' ∉ key) (hbrace : '}' ∉ key) (hcolon : ':' ∉ key)
    (hs : (c.getFull required key).result = .ok (some s))
    (ht : (c.resolveSingle (reference key)).result = .ok t) : s = t := by
  obtain ⟨v, hfind, hvalue⟩ := exists_of_getFull hs
  obtain ⟨inner, hinner⟩ := c.exists_inner
  obtain ⟨_, settled, _, called, hturns, hcalls, hcomes⟩ := exists_stages (hinner v) hvalue
  obtain ⟨_, settled', _, called', hturns', hcalls', hcomes'⟩ :=
    exists_stages (hinner (reference key)) ht
  have href := isReference_reference hne hdollar hbrace hcolon
  -- The reference begins with an exchange that makes it the value.
  have hputs : c.Puts inner .required ⟨reference key, key⟩ v := puts_reference hexp href hfind
  have hstart : c.Exchanged inner [.header, .optional, .required] (reference key) v := by
    have hform : Form.required ∈ [Form.header, .optional, .required] := by decide
    have hfirst := Exchanges.intro (c := c) [] [] hform href.isToken hputs
    rw [List.append_nil, List.append_nil] at hfirst
    exact .single hfirst
  have hsettled : settled.text = settled'.text :=
    Exchanges.unique (hstart.trans hturns.exchanged) hturns'.exchanged (hturns.settled hreader)
      (hturns'.settled hreader)
  have hcalled : called.text = called'.text :=
    Exchanges.unique hcalls.exchanged (hsettled ▸ hcalls'.exchanged) hcalls.called hcalls'.called
  exact hcomes.unique hcomes' hcalled

/-- Values that put a name together, and a padded number, and one that calls a
function. -/
def buildingContext : Context where
  document := .ofList
    [("k".toList,
        .scalar "$opt\x7bx$\x7bi\x7d\x7d-$\x7ba:3\x7d/$FUNC\x7bf,$\x7bi\x7d\x7d".toList),
      ("x1".toList, .scalar "y$\x7bb\x7d".toList), ("i".toList, .scalar "1".toList),
      ("a".toList, .scalar "$\x7bi\x7d2".toList), ("b".toList, .scalar "z".toList)]
  registry := some { functions := [("f".toList, fun args => .ok (Text.natText args.length))] }

theorem getFull_eq_reference_built :
    (buildingContext.getFull false "k".toList).result = .ok (some "yz-012/1".toList) ∧
      (buildingContext.resolveSingle (reference "k".toList)).result =
        .ok "yz-012/1".toList := by
  have hreader : ∀ r ∈ buildingContext.registry, r.headerReader = none := by
    rintro _ ⟨⟩
    rfl
  have hvalue : (buildingContext.getFull false "k".toList).result =
      .ok (some "yz-012/1".toList) := by rfl
  obtain ⟨t, ht⟩ : ∃ t, (buildingContext.resolveSingle (reference "k".toList)).result = .ok t :=
    ⟨"yz-012/1".toList, by rfl⟩
  have hsame := buildingContext.getFull_eq_reference rfl hreader (by decide) (by decide)
    (by decide) (by decide) hvalue ht
  exact ⟨hvalue, hsame ▸ ht⟩

end Context

end Wcl
