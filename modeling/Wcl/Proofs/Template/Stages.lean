import Wcl.Proofs.Template.Expansion

/-!
# What the stages leave

A template is resolved in three stages: variables and headers, functions, loops.
Each stage goes on until its own forms are gone, and what it leaves is the text
that the next one works on (`Stages.Lead`).  Nothing goes back: a form that the
result of a function or the value of a loop completes stays in the text.

So `Context.resolve_lacks` says what every stage leaves, and that nothing is
left in the end if no dollar sign stands in the way: `OpensOnly uses t` says that
every dollar sign of `t` is the start of an opener, and such texts keep that when
texts without dollar signs are put for tokens (`OpensOnly.replaceAll`).
-/

namespace Wcl

/-- A text has no token of some forms. -/
def Lacks (forms : List Form) (t : Text) : Prop :=
  ∀ form ∈ forms, Token.first? form.kind t = none

instance (forms : List Form) (t : Text) : Decidable (Lacks forms t) :=
  inferInstanceAs (Decidable (∀ form ∈ forms, Token.first? form.kind t = none))

/-- A text has no token of any form and no loop. -/
def Concrete (t : Text) : Prop := ∀ use ∈ Use.all, Token.first? use.kind t = none

instance (t : Text) : Decidable (Concrete t) :=
  inferInstanceAs (Decidable (∀ use ∈ Use.all, Token.first? use.kind t = none))

theorem Concrete.of_notMem {t : Text} (h : '$' ∉ t) : Concrete t :=
  fun use _ => Token.first?_of_notMem use.head?_opener h

theorem Concrete.first?_form {t : Text} (h : Concrete t) (form : Form) :
    Token.first? form.kind t = none :=
  h (.form form) (Use.mem_all _)

theorem Concrete.hasLoops_eq {t : Text} (h : Concrete t) : hasLoops t = false := by
  have hnone : Token.first? loopKind t = none := h .loop (Use.mem_all _)
  rw [hasLoops, hnone]
  rfl

/-! ### Openers -/

/-- Every dollar sign of a text begins an opener of one of some uses. -/
def OpensOnly (uses : List Use) (t : Text) : Prop :=
  ∀ r, '$' :: r <:+ t → ∃ use ∈ uses, (Token.afterOpener? use.kind.opener ('$' :: r)).isSome

namespace OpensOnly

variable {uses : List Use} {use : Use} {t : Text}

theorem of_suffix {t' : Text} (h : OpensOnly uses t) (hs : t' <:+ t) : OpensOnly uses t' :=
  fun r hr => h r (hr.trans hs)

theorem of_notMem_append {p : Text} (hp : '$' ∉ p) (h : OpensOnly uses t) :
    OpensOnly uses (p ++ t) := by
  induction p with
  | nil => exact h
  | cons ch p ih =>
    obtain ⟨hch, hp⟩ := not_or.1 (mt List.mem_cons.2 hp)
    intro r hr
    rcases List.suffix_cons_iff.1 hr with he | hr
    · exact absurd (List.cons.inj he).1 hch
    · exact ih hp r hr

/-- What stands behind the dollar sign of an opener has no other one. -/
theorem exists_append {r : Text} (h : (Token.afterOpener? use.kind.opener ('$' :: r)).isSome) :
    ∃ w r', r = w ++ r' ∧ '$' ∉ w ∧ ('$' :: w).map Char.toLower = use.kind.opener.map Char.toLower := by
  obtain ⟨r', hr'⟩ := Option.isSome_iff_exists.1 h
  obtain ⟨w, hw, hsplit⟩ := Token.exists_of_afterOpener? hr'
  obtain ⟨c, w, rfl, _, hdollar, _⟩ := Use.exists_of_opener hw
  exact ⟨c :: w, r', (List.cons.inj hsplit).2, hdollar, hw⟩

/-- A text without dollar signs in the place of something that begins with one
leaves the openers. -/
theorem replaceAll {s v : Text} (h : OpensOnly uses t) (hs : s.head? = some '$') (hv : '$' ∉ v) :
    OpensOnly uses (Text.replaceAll s v t) := by
  obtain ⟨s', rfl⟩ : ∃ s', s = '$' :: s' := List.head?_eq_some_iff.1 hs
  induction t using Text.replaceAll_induction (List.cons_ne_nil '$' s') with
  | nil => exact h
  | front r ih =>
    rw [Text.replaceAll_append (List.cons_ne_nil _ _)]
    exact of_notMem_append hv (ih (h.of_suffix (List.suffix_append _ _)))
  | char ch r hfront ih =>
    rw [Text.replaceAll_cons_of_unmatched hfront]
    have hrest := ih (h.of_suffix (List.suffix_cons ch r))
    intro r' hr'
    rcases List.suffix_cons_iff.1 hr' with he | hr'
    · -- The opener lies in front of the next dollar sign, where nothing is replaced.
      obtain ⟨rfl, rfl⟩ := List.cons.inj he
      obtain ⟨use, huse, hopens⟩ := h r List.suffix_rfl
      obtain ⟨w, r', rfl, hw, hcase⟩ := exists_append hopens
      refine ⟨use, huse, ?_⟩
      rw [Text.replaceAll_append_of_head rfl hw, ← List.cons_append,
        Token.afterOpener?_append hcase]
      rfl
    · exact hrest r' hr'

theorem first?_eq_none (h : OpensOnly uses t) (use : Use) (huse : use ∉ uses) :
    Token.first? use.kind t = none := by
  induction t with
  | nil => rfl
  | cons ch r ih =>
    have hrest := ih (h.of_suffix (List.suffix_cons ch r))
    by_cases hch : ch = '$'
    · subst hch
      obtain ⟨use', huse', hopens⟩ := h r List.suffix_rfl
      have hne : use ≠ use' := fun he => huse (he ▸ huse')
      rw [Token.first?, Use.at?_of_ne hopens hne, hrest]
      rfl
    · rw [Token.first?_cons_of_ne use.head?_opener hch, hrest]

theorem lacks {forms : List Form} (h : OpensOnly uses t)
    (hforms : ∀ form ∈ forms, Use.form form ∉ uses) : Lacks forms t :=
  fun form hform => h.first?_eq_none (.form form) (hforms form hform)

end OpensOnly

theorem TokensOnly.opensOnly {uses : List Use} {t : Text} (h : TokensOnly uses t) :
    OpensOnly uses t := by
  intro r hr
  obtain ⟨s, _, ⟨use, huse, body, htoken⟩, r', hr'⟩ := h r hr
  obtain ⟨opener, ho, hspelling⟩ := htoken.spelled
  refine ⟨use, huse, ?_⟩
  have ht : '$' :: r = opener ++ (body ++ ['}'] ++ r') := by
    rw [← hr', ← List.append_assoc]
    exact congrArg (· ++ r') hspelling
  rw [ht, Token.afterOpener?_append ho]
  rfl

namespace Context

variable {c : Context} {inner : (name value : Text) → Traced Text} {template : Text} {form : Form}
  {forms : List Form} {item item' : Combination} {limit : Nat} {changed : Bool}

/-! ### One pass -/

/-- What is put for a token of a form. -/
inductive Puts (c : Context) (inner : (name value : Text) → Traced Text) (form : Form)
    (token : Token) : Text → Prop
  | found {new : Replacement} : (c.replacement? inner form token.body).result = .ok (some new) →
    Puts c inner form token new.text
  /-- An optional variable is missing. -/
  | missing : form = .optional → (c.replacement? inner form token.body).result = .ok none →
    Puts c inner form token []

theorem Puts.unique {token : Token} {v v' : Text} (h : c.Puts inner form token v) (h' : c.Puts inner form token v') :
    v = v' := by
  cases h with
  | found h =>
    cases h' with
    | found h' =>
      rw [h] at h'
      cases h'
      rfl
    | missing _ h' =>
      rw [h] at h'
      cases h'
  | missing _ h =>
    cases h' with
    | found h' =>
      rw [h] at h'
      cases h'
    | missing _ _ => rfl

/-- For a reference the value of its variable is put. -/
theorem puts_reference (hexp : c.expand = false) {token : Token} {v : Text}
    (hr : IsReference form token.body token.spelling)
    (hfind : c.document.find? c.scope token.body = some (.scalar v)) :
    c.Puts inner form token v := by
  have hrep : (c.replacement? inner form token.body).result = _ := result_replacement? hexp hr
  rw [hfind] at hrep
  exact .found hrep

/-- A pass for one form: the leftmost token is replaced until there is none. -/
inductive Passes (c : Context) (inner : (name value : Text) → Traced Text) (form : Form) :
    Combination → Combination → Bool → Prop
  | done {item : Combination} : Token.first? form.kind item.text = none →
    Passes c inner form item item false
  /-- Something is put for the token. -/
  | found {item item' : Combination} {token : Token} {new : Replacement} {changed : Bool} :
    Token.first? form.kind item.text = some token →
      (c.replacement? inner form token.body).result = .ok (some new) →
      Passes c inner form (item.substitute token new) item' changed →
      Passes c inner form item item' true
  /-- An optional variable is missing. -/
  | dropped {item item' : Combination} {token : Token} {changed : Bool} :
    form = .optional → Token.first? form.kind item.text = some token →
      (c.replacement? inner form token.body).result = .ok none →
      Passes c inner form (item.substitute token { text := [] }) item' changed →
      Passes c inner form item item' changed

/-- Only for a variable there may be nothing to put. -/
theorem isVariable_of_replacement? {body : Text}
    (h : (c.replacement? inner form body).result = .ok none) :
    form = .optional ∨ form = .required := by
  cases form with
  | header =>
    obtain ⟨_, _, h⟩ := Traced.bind_eq_ok.1 h
    cases h
  | function =>
    obtain ⟨_, _, h⟩ := Traced.bind_eq_ok.1 h
    cases h
  | optional => exact .inl rfl
  | required => exact .inr rfl

theorem passes_of_substitute
    (h : (c.substitute inner template form limit item).result = .ok (item', changed)) :
    c.Passes inner form item item' changed := by
  induction limit generalizing item changed with
  | zero =>
    cases hf : Token.first? form.kind item.text with
    | none =>
      rw [substitute_of_none hf] at h
      cases h
      exact .done hf
    | some token =>
      unfold substitute at h
      rw [hf] at h
      cases h
  | succ limit ih =>
    cases hf : Token.first? form.kind item.text with
    | none =>
      rw [substitute_of_none hf] at h
      cases h
      exact .done hf
    | some token =>
      unfold substitute at h
      rw [hf] at h
      obtain ⟨new?, hnew, h⟩ := Traced.bind_eq_ok.1 h
      cases new? with
      | some new =>
        obtain ⟨⟨item₁, changed₁⟩, hrest, h⟩ := Traced.bind_eq_ok.1 h
        cases h
        exact .found hf hnew (ih hrest)
      | none =>
        dsimp only at h
        split at h
        · cases h
        · next hform =>
          exact .dropped ((isVariable_of_replacement? hnew).resolve_right hform) hf hnew (ih h)

namespace Passes

theorem lacks (h : c.Passes inner form item item' changed) : Lacks [form] item'.text := by
  induction h with
  | done hf => exact List.forall_mem_singleton.2 hf
  | found _ _ _ ih => exact ih
  | dropped _ _ _ _ ih => exact ih

/-- A pass that puts nothing for a token that must be there leaves the text. -/
theorem eq_of_unchanged (h : c.Passes inner form item item' false) (hform : form ≠ .optional) :
    item' = item := by
  cases h with
  | done _ => rfl
  | dropped he _ _ _ => exact absurd he hform

/-- A pass keeps what putting a text for a token keeps. -/
theorem preserves {P : Text → Prop} (h : c.Passes inner form item item' changed)
    (hputs : ∀ {t v : Text} {token : Token}, Token.first? form.kind t = some token →
      c.Puts inner form token v → P t → P (Text.replaceAll token.spelling v t))
    (hP : P item.text) : P item'.text := by
  induction h with
  | done _ => exact hP
  | found hf hrep _ ih => exact ih (hputs hf (.found hrep) hP)
  | dropped hform hf hrep _ ih => exact ih (hputs hf (.missing hform hrep) hP)

/-- A pass keeps a text of tokens if what it puts for them is one. -/
theorem tokensOnly {uses : List Use} (h : c.Passes inner form item item' changed)
    (hnew : ∀ token new, IsToken (.form form) token →
      (c.replacement? inner form token.body).result = .ok (some new) → TokensOnly uses new.text)
    (ht : TokensOnly uses item.text) : TokensOnly uses item'.text := by
  refine h.preserves (fun hf hputs ht => ?_) ht
  obtain ⟨htoken, _⟩ := ht.isToken_of_first? (.form form) hf
  cases hputs with
  | found hrep => exact ht.replaceAll htoken.isSpelling (hnew _ _ htoken hrep)
  | missing _ _ => exact ht.replaceAll htoken.isSpelling .nil

/-- A pass that only drops tokens keeps a text of tokens. -/
theorem tokensOnly_of_unchanged {uses : List Use} (h : c.Passes inner form item item' false)
    (ht : TokensOnly uses item.text) : TokensOnly uses item'.text := by
  generalize hchanged : false = changed at h
  induction h with
  | done _ => exact ht
  | found _ _ _ _ => cases hchanged
  | dropped _ hf _ _ ih =>
    obtain ⟨htoken, _⟩ := ht.isToken_of_first? (.form form) hf
    exact ih (ht.replaceAll htoken.isSpelling .nil) hchanged

/-- A pass keeps a text of openers if what it puts has no dollar sign. -/
theorem opensOnly {uses : List Use} (h : c.Passes inner form item item' changed)
    (hnew : ∀ body new, (c.replacement? inner form body).result = .ok (some new) →
      '$' ∉ new.text)
    (ht : OpensOnly uses item.text) : OpensOnly uses item'.text := by
  refine h.preserves (fun hf hputs ht => ?_) ht
  have hhead := (Use.form form).head?_spelling hf
  cases hputs with
  | found hrep => exact ht.replaceAll hhead (hnew _ _ hrep)
  | missing _ _ => exact ht.replaceAll hhead List.not_mem_nil

end Passes

/-! ### Turns -/

/-- Turns of substitution from a start; the last of them, which changes nothing,
leads from `before` to `stop`. -/
inductive Turns (c : Context) (inner : (name value : Text) → Traced Text) (template : Text)
    (forms : List Form) : (start before stop : Combination) → Prop
  | last {item stop : Combination} :
    (c.turn inner template forms item).result = .ok (stop, false) →
      Turns c inner template forms item item stop
  | next {item item₁ before stop : Combination} :
    (c.turn inner template forms item).result = .ok (item₁, true) →
      Turns c inner template forms item₁ before stop →
      Turns c inner template forms item before stop

theorem turns_of_untilStable
    (h : (c.untilStable inner template forms limit item).result = .ok item') :
    ∃ before, c.Turns inner template forms item before item' := by
  induction limit generalizing item with
  | zero => cases h
  | succ limit ih =>
    obtain ⟨⟨item₁, changed⟩, hturn, h⟩ := Traced.bind_eq_ok.1 h
    cases changed with
    | true =>
      obtain ⟨before, hrest⟩ := ih h
      exact ⟨before, .next hturn hrest⟩
    | false =>
      cases h
      exact ⟨item, .last hturn⟩

theorem Turns.result_turn {start before stop : Combination}
    (h : c.Turns inner template forms start before stop) :
    (c.turn inner template forms before).result = .ok (stop, false) := by
  induction h with
  | last hturn => exact hturn
  | next _ _ ih => exact ih

theorem Turns.eq_of_lacks {start before stop : Combination}
    (h : c.Turns inner template forms start before stop) (hlacks : Lacks forms start.text) :
    stop = start := by
  have hturn : (c.turn inner template forms start).result = .ok (start, false) :=
    turn_of_none hlacks
  cases h with
  | last h =>
    rw [hturn] at h
    cases h
    rfl
  | next h _ =>
    rw [hturn] at h
    cases h

/-- What every pass keeps a turn keeps. -/
theorem turn_preserves {P : Combination → Prop}
    (hpass : ∀ form ∈ forms, ∀ {item item' : Combination} {changed : Bool},
      c.Passes inner form item item' changed → P item → P item')
    (h : (c.turn inner template forms item).result = .ok (item', changed)) (hP : P item) :
    P item' := by
  induction forms generalizing item changed with
  | nil =>
    cases h
    exact hP
  | cons form forms ih =>
    obtain ⟨⟨item₁, changed₁⟩, hsub, h⟩ := Traced.bind_eq_ok.1 h
    obtain ⟨⟨item₂, changed₂⟩, hturn, h⟩ := Traced.bind_eq_ok.1 h
    cases h
    obtain ⟨hform, hforms⟩ := List.forall_mem_cons.1 hpass
    exact ih hforms hturn (hform (passes_of_substitute hsub) hP)

theorem Turns.preserves {P : Combination → Prop} {start before stop : Combination}
    (hpass : ∀ form ∈ forms, ∀ {item item' : Combination} {changed : Bool},
      c.Passes inner form item item' changed → P item → P item')
    (h : c.Turns inner template forms start before stop) (hP : P start) : P before ∧ P stop := by
  induction h with
  | last hturn => exact ⟨hP, turn_preserves hpass hturn hP⟩
  | next hturn _ ih => exact ih (turn_preserves hpass hturn hP)

/-- The last turn for variables begins with a text without headers and ends
with one without variables. -/
theorem lacks_of_turn
    (h : (c.turn inner template [.header, .optional, .required] item).result
      = .ok (item', false)) :
    Lacks [.header] item.text ∧ Lacks [.optional, .required] item'.text ∧
      c.Passes inner .optional item item' false := by
  obtain ⟨item₁, hhead, h⟩ := turn_cons_unchanged h
  obtain ⟨item₂, hopt, h⟩ := turn_cons_unchanged h
  obtain ⟨item₃, hreq, h⟩ := turn_cons_unchanged h
  cases h
  have hhead := passes_of_substitute hhead
  have hopt := passes_of_substitute hopt
  have hreq := passes_of_substitute hreq
  obtain rfl := hhead.eq_of_unchanged nofun
  obtain rfl := hreq.eq_of_unchanged nofun
  refine ⟨hhead.lacks, ?_, hopt⟩
  exact List.forall_mem_cons.2 ⟨hopt.lacks _ (List.mem_singleton_self _), hreq.lacks⟩

theorem lacks_of_function_turn
    (h : (c.turn inner template [.function] item).result = .ok (item', false)) :
    item' = item ∧ Lacks [.function] item'.text := by
  obtain ⟨item₁, hfunction, h⟩ := turn_cons_unchanged h
  cases h
  have hfunction := passes_of_substitute hfunction
  exact ⟨hfunction.eq_of_unchanged nofun, hfunction.lacks⟩

end Context

/-! ### What is put for tokens -/

/-- The functions and the header reader return texts without dollar signs. -/
structure Registry.Plain (r : Registry) : Prop where
  functions : ∀ f ∈ r.functions, ∀ args t, f.2 args = .ok t → '$' ∉ t
  headers : ∀ reader ∈ r.headerReader, ∀ file key t, reader file key = .ok t → '$' ∉ t

theorem Registry.Plain.call {r : Registry} (h : r.Plain) {name : Text} {args : List Text} {t : Text}
    (ht : (r.call name args).result = .ok t) : '$' ∉ t := by
  unfold Registry.call at ht
  split at ht
  · cases ht
  · next f hf =>
    obtain ⟨_, _, ht⟩ := Traced.bind_eq_ok.1 ht
    obtain ⟨p, hp, rfl⟩ := Option.map_eq_some_iff.1 hf
    cases hresult : p.2 args with
    | error e =>
      rw [hresult] at ht
      cases ht
    | ok t' =>
      rw [hresult] at ht
      cases ht
      exact h.functions p (List.mem_of_find?_eq_some hp) args t hresult

theorem Registry.Plain.readHeaders {r : Registry} (h : r.Plain) {file : Text} {keys ts : List Text}
    (hts : r.readHeaders file keys = .ok ts) : ∀ t ∈ ts, '$' ∉ t := by
  unfold Registry.readHeaders at hts
  split at hts
  · cases hts
  · next reader hreader =>
    intro t ht
    obtain ⟨key, _, hkey⟩ := Context.exists_of_mapM hts t ht
    cases hresult : reader file key with
    | error e =>
      rw [hresult] at hkey
      cases hkey
    | ok t' =>
      rw [hresult] at hkey
      cases hkey
      exact h.headers reader hreader file key t hresult

namespace Context

variable {c : Context} {inner : (name value : Text) → Traced Text} {template : Text} {form : Form}
  {token : Token} {new : Replacement}

/-- The collaborators return texts without dollar signs. -/
def PlainResults (c : Context) : Prop := ∀ r ∈ c.registry, r.Plain

/-- Every scalar that a look-up finds is a text of whole tokens. -/
def TokensInValues (c : Context) : Prop :=
  ∀ name v, c.document.find? c.scope name = some (.scalar v) → TokensOnly Use.all v

/-- It is enough to look at the scalars of the document and the scope. -/
theorem tokensInValues_of_scalars
    (h : ∀ t ∈ c.document.entries.scalars ++ c.scope.scalars, TokensOnly Use.all t) :
    c.TokensInValues :=
  fun _ _ hfind => h _ (Document.find?_scalars hfind (List.mem_singleton_self _))

theorem PlainResults.header (h : c.PlainResults) {body t : Text} (ht : c.header body = .ok t) :
    '$' ∉ t := by
  unfold Context.header at ht
  split at ht
  · cases ht
  · next r hr =>
    split at ht
    · cases ht
    · next file keys _ =>
      cases hread : r.readHeaders file keys with
      | error e =>
        rw [hread] at ht
        cases ht
      | ok ts =>
        rw [hread] at ht
        cases ht
        exact Text.notMem_intercalate (by decide) ((h r hr).readHeaders hread)

theorem PlainResults.function (h : c.PlainResults) {body t : Text}
    (ht : (c.function body).result = .ok t) : '$' ∉ t := by
  unfold Context.function at ht
  split at ht
  · cases ht
  · next name args _ =>
    split at ht
    · cases ht
    · next r hr => exact (h r hr).call ht

/-- What is put for a function has no dollar sign. -/
theorem PlainResults.notMem (h : c.PlainResults) {body : Text}
    (hnew : (c.replacement? inner .function body).result = .ok (some new)) : '$' ∉ new.text := by
  obtain ⟨t, ht, hnew⟩ := Traced.bind_eq_ok.1 hnew
  cases hnew
  exact h.function ht

theorem tokensOnly_variableValue? (hvalues : c.TokensInValues) (htoken : IsToken (.form form) token)
    (hnew : (c.variableValue? inner token.body).result = .ok (some new)) :
    TokensOnly Use.all new.text := by
  unfold variableValue? at hnew
  dsimp only at hnew
  split at hnew
  · cases hnew
  · cases hnew
  · next value hfind =>
    split at hnew
    · cases hnew
      dsimp only
      split
      · have hloop : IsToken .loop ⟨loopToken token.body, token.body⟩ :=
          ⟨htoken.ne_nil, htoken.dollar, htoken.brace, loopOpener, rfl, by simp [loopToken]⟩
        have h := SpelledBy.spelling (P := fun s => ∃ use ∈ Use.all, ∃ body, IsToken use ⟨s, body⟩)
          hloop.isSpelling ⟨.loop, Use.mem_all _, _, hloop⟩ .nil
        rwa [List.append_nil] at h
      · exact hvalues _ _ hfind
    · split at hnew
      · cases hnew
        exact hvalues _ _ hfind
      · obtain ⟨number, _, hnew⟩ := Traced.bind_eq_ok.1 hnew
        split at hnew
        · next padded hpadded =>
          cases hnew
          exact .of_notMem (Text.notMem_of_zeroPad? hpadded)
        · cases hnew

theorem tokensOnly_replacement? (hplain : c.PlainResults) (hvalues : c.TokensInValues)
    (htoken : IsToken (.form form) token)
    (hnew : (c.replacement? inner form token.body).result = .ok (some new)) :
    TokensOnly Use.all new.text := by
  cases form with
  | header =>
    obtain ⟨t, ht, hnew⟩ := Traced.bind_eq_ok.1 hnew
    cases hnew
    exact .of_notMem (hplain.header ht)
  | function => exact .of_notMem (hplain.notMem hnew)
  | optional => exact tokensOnly_variableValue? hvalues htoken hnew
  | required => exact tokensOnly_variableValue? hvalues htoken hnew

end Context

/-! ### The stages -/

/-- Where the stages of a resolution have come to. -/
structure Stages where
  /-- What resolves the value of a variable by itself. -/
  inner : (name value : Text) → Traced Text
  /-- Before the last turn for variables and headers. -/
  before : Combination
  /-- Behind the stage of variables and headers. -/
  settled : Combination
  /-- Behind the stage of functions. -/
  called : Combination

/-- The stages lead from a template to what it resolves to. -/
structure Stages.Lead (s : Stages) (c : Context) (template : Text) (r : Resolved) : Prop where
  resolve : c.resolve template = c.resolveWith s.inner template
  settles : c.Turns s.inner template [.header, .optional, .required] ⟨template, []⟩ s.before
    s.settled
  calls : ∃ before, c.Turns s.inner template [.function] s.settled before s.called
  single : ∀ item, r = .single item → item = s.called
  expanded : ∀ items, r = .expanded items →
    ∀ item ∈ items, c.Fills s.called item ∧ hasLoops item.text = false

namespace Context

variable {c : Context} {template : Text} {r : Resolved} {item item' : Combination}

theorem exists_lead (h : (c.resolve template).result = .ok r) :
    ∃ s : Stages, s.Lead c template r := by
  obtain ⟨inner, hinner⟩ := c.exists_resolve_eq template
  rw [hinner] at h
  obtain ⟨called, hall, hr⟩ := exists_of_resolveWith h
  obtain ⟨settled, hsettled, hcalled⟩ := Traced.bind_eq_ok.1 hall
  obtain ⟨before, hturns⟩ := turns_of_untilStable hsettled
  obtain ⟨before', hcalls⟩ := turns_of_untilStable hcalled
  refine ⟨⟨inner, before, settled, called⟩, hinner, hturns, ⟨before', hcalls⟩, ?_, ?_⟩
  · rintro item rfl
    rcases hr with he | ⟨_, he, _⟩
    · exact Resolved.single.inj he
    · cases he
  · rintro items rfl item hitem
    rcases hr with he | ⟨items', he, hexpand⟩
    · cases he
    · cases he
      obtain ⟨hdone, top, htop, hfills⟩ := fills_of_expandStack hexpand item hitem
      obtain rfl := List.mem_singleton.1 htop
      exact ⟨hfills, hdone⟩

/-- The scalars that the steps of expansion look up hold no dollar sign. -/
def FillsPlainly (c : Context) (item : Combination) : Prop :=
  ∀ item' token text, c.Fills item item' → Token.first? loopKind item'.text = some token →
    c.document.find? c.scope (Token.nameIn token.body) = some (.scalar text) → '$' ∉ text

theorem Fills.opensOnly {uses : List Use} (h : c.Fills item item') (hplain : c.FillsPlainly item)
    (ht : OpensOnly uses item.text) : OpensOnly uses item'.text := by
  induction h with
  | refl => exact ht
  | step hf hvalue hshown hrest ih =>
    obtain ⟨text, hfind, hmem⟩ := hvalue
    have hdollar := Token.notMem_shown?
      (Text.notMem_valueList (hplain _ _ text .refl hf hfind) ',' _ hmem) hshown
    refine ih ?_ (ht.replaceAll (Use.loop.head?_spelling hf) hdollar)
    intro item' token' text' hfills
    exact hplain item' token' text' (.step hf ⟨text, hfind, hmem⟩ hshown hfills)

/-- Whole tokens are settled but for functions and loops. -/
theorem tokensOnly_settled {s : Stages} (h : s.Lead c template r)
    (hplain : c.PlainResults) (hvalues : c.TokensInValues) (ht : TokensOnly Use.all template) :
    TokensOnly [.form .function, .loop] s.settled.text := by
  obtain ⟨hbefore, _⟩ := h.settles.preserves (P := fun item => TokensOnly Use.all item.text)
    (fun form _ _ _ _ hpass => hpass.tokensOnly fun token new htoken hnew =>
      tokensOnly_replacement? hplain hvalues htoken hnew) ht
  obtain ⟨hheader, hvariables, hdrops⟩ := lacks_of_turn h.settles.result_turn
  have h₁ := hbefore.without (.form .header) (hheader _ (List.mem_singleton_self _))
  have h₂ := hdrops.tokensOnly_of_unchanged h₁
  have h₃ := h₂.without (.form .optional) (hvariables _ (by simp))
  exact h₃.without (.form .required) (hvariables _ (by simp))

/-- Functions keep a text of functions and loops, and leave the loops. -/
theorem tokensOnly_called {s : Stages} (h : s.Lead c template r) (hplain : c.PlainResults)
    (hsettled : TokensOnly [.form .function, .loop] s.settled.text) :
    TokensOnly [.loop] s.called.text := by
  obtain ⟨before, hcalls⟩ := h.calls
  obtain ⟨_, hcalled⟩ := hcalls.preserves
    (P := fun item => TokensOnly [.form .function, .loop] item.text)
    (fun form hform _ _ _ hpass => hpass.tokensOnly fun token new _ hnew => by
      obtain rfl := List.mem_singleton.1 hform
      exact .of_notMem (hplain.notMem hnew)) hsettled
  obtain ⟨_, hfunction⟩ := lacks_of_function_turn hcalls.result_turn
  exact hcalled.without (.form .function) (hfunction _ (List.mem_singleton_self _))

/-- What begins functions and loops begins them in the end. -/
theorem opensOnly_combinations {s : Stages} (h : s.Lead c template r) {uses : List Use}
    (hcalled : OpensOnly uses s.called.text)
    (hfills : ∀ items, r = .expanded items → c.FillsPlainly s.called) :
    ∀ item ∈ r.combinations, OpensOnly uses item.text := by
  cases r with
  | single item' =>
    intro item hitem
    obtain rfl := List.mem_singleton.1 hitem
    rwa [h.single _ rfl]
  | expanded items =>
    intro item hitem
    exact (h.expanded items rfl item hitem).1.opensOnly (hfills items rfl) hcalled

/-- **What the stages leave.**  Every stage leaves none of its own forms.  Where
every dollar sign that is left begins a function or a loop, and expansion looks
up no other ones, no variable or header is left in the end, and no function
either if only loops are left by the functions.  Whole tokens, none inside
another, come to that. -/
theorem resolve_lacks (c : Context) (hplain : c.PlainResults) {template : Text} {r : Resolved}
    (h : (c.resolve template).result = .ok r) :
    ∃ s : Stages, s.Lead c template r ∧
      Lacks [.header] s.before.text ∧ Lacks [.optional, .required] s.settled.text ∧
      Lacks [.function] s.called.text ∧
      (Lacks [.function] s.settled.text → s.called = s.settled) ∧
      (OpensOnly [.form .function, .loop] s.settled.text →
        (∀ items, r = .expanded items → c.FillsPlainly s.called) →
        ∀ item ∈ r.combinations, Lacks [.header, .optional, .required] item.text ∧
          (OpensOnly [.loop] s.called.text → Lacks [.function] item.text)) ∧
      (TokensOnly Use.all template → c.TokensInValues →
        OpensOnly [.form .function, .loop] s.settled.text ∧ OpensOnly [.loop] s.called.text) := by
  obtain ⟨s, hs⟩ := exists_lead h
  obtain ⟨hheader, hvariables, _⟩ := lacks_of_turn hs.settles.result_turn
  obtain ⟨beforeCalls, hcalls⟩ := hs.calls
  obtain ⟨_, hfunction⟩ := lacks_of_function_turn hcalls.result_turn
  refine ⟨s, hs, hheader, hvariables, hfunction, hcalls.eq_of_lacks, ?_, ?_⟩
  · intro hsettled hfills item hitem
    obtain ⟨_, hcalled⟩ := hcalls.preserves
      (P := fun item => OpensOnly [.form .function, .loop] item.text)
      (fun form hform _ _ _ hpass => hpass.opensOnly fun body new hnew => by
        obtain rfl := List.mem_singleton.1 hform
        exact hplain.notMem hnew) hsettled
    refine ⟨(opensOnly_combinations hs hcalled hfills item hitem).lacks (by decide), ?_⟩
    intro hloops
    exact (opensOnly_combinations hs hloops hfills item hitem).lacks (by decide)
  · intro ht hvalues
    have hsettled := tokensOnly_settled hs hplain hvalues ht
    exact ⟨hsettled.opensOnly, (tokensOnly_called hs hplain hsettled).opensOnly⟩

/-- A header, a variable, a call and an optional variable that is missing. -/
theorem resolve_lacks_whole :
    let registry : Registry :=
      { functions := [("f".toList, fun args => .ok (Text.natText args.length))]
        headerReader := some fun _ key => .ok (Text.natText key.length) }
    let c : Context := ⟨.ofList [("b".toList, .scalar "x".toList)], {}, true, some registry⟩
    let template := "$HEAD\x7bi,uv,w\x7d-$\x7bb\x7d/$func\x7bf,1,2\x7d$OPT\x7bz\x7d".toList
    let item : Combination := ⟨"2,1-x/2".toList, [("b".toList, "x".toList)]⟩
    c.PlainResults ∧ (c.resolve template).result = .ok (.single item) ∧
      Lacks [.header, .optional, .required] item.text ∧ Lacks [.function] item.text := by
  intro registry c template item
  have hplain : c.PlainResults := by
    rintro _ ⟨⟩
    refine ⟨fun f hf args t ht => ?_, ?_⟩
    · obtain rfl := List.mem_singleton.1 hf
      cases ht
      exact Text.notMem_natText _
    · rintro _ ⟨⟩ file key t ⟨⟩
      exact Text.notMem_natText _
  have hresult : (c.resolve template).result = .ok (.single item) := by
    obtain ⟨inner, hinner⟩ := c.exists_resolve_eq template
    rw [hinner]
    rfl
  obtain ⟨s, _, _, _, _, _, hleft, hwhole⟩ := c.resolve_lacks hplain hresult
  obtain ⟨hsettled, hcalled⟩ := hwhole (by decide) (tokensInValues_of_scalars (by decide))
  obtain ⟨hvariables, hfunction⟩ := hleft hsettled nofun item (List.mem_singleton_self _)
  exact ⟨hplain, hresult, hvariables, hfunction hcalled⟩

/-- A loop with one value makes one text, if it leaves no loop in it. -/
theorem result_resolve_of_one_value {token : Token} {value : Text}
    (hnone : ∀ form : Form, Token.first? form.kind template = none)
    (hf : Token.first? loopKind template = some token)
    (hvalues : c.loopValues template 999 token = .ok [value])
    (hassign : assign ⟨template, []⟩ token value = .ok item) (hdone : hasLoops item.text = false) :
    (c.resolve template).result = .ok (.expanded [item]) := by
  obtain ⟨inner, hinner⟩ := c.exists_resolve_eq template
  have hloops : hasLoops template = true := by
    rw [hasLoops, hf]
    rfl
  have hitems : [value].mapM (assign ⟨template, []⟩ token) = .ok [item] := by
    rw [List.mapM_cons, hassign]
    rfl
  have hunfinished : [item].filter (hasLoops ·.text) = [] := by simp [hdone]
  have hfinished : [item].filter (!hasLoops ·.text) = [item] := by simp [hdone]
  rw [hinner, result_resolveWith_of_none hnone hloops, expandLoops, loopBudget,
    expandStack_some [] hf hvalues hitems, hunfinished, hfinished]
  show Except.map _ (_ <$> c.expandStack template _ []) = _
  rw [expandStack]
  rfl

/-- A reference in the value of a loop, a variable that a function completes and a
function that a loop completes are left. -/
theorem resolve_leaves_completed :
    let registry : Registry := { functions := [("f".toList, fun _ => .ok "1".toList)] }
    let c : Context :=
      ⟨.ofList [("a".toList, .scalar "$\x7bb\x7d".toList), ("b".toList, .scalar "x".toList)],
        {}, false, some registry⟩
    let forms : List Form := [.header, .optional, .required, .function]
    c.PlainResults ∧
      (∃ item, (c.resolve "$LOOP\x7ba\x7d".toList).result = .ok (.expanded [item]) ∧
        ¬ Lacks forms item.text) ∧
      (∃ item, (c.resolve "$\x7bx$FUNC\x7bf\x7d\x7d".toList).result = .ok (.single item) ∧
        ¬ Lacks forms item.text) ∧
      (∃ item, (c.resolve "$FUNC\x7bf,$LOOP\x7bb\x7d\x7d".toList).result
        = .ok (.expanded [item]) ∧ ¬ Lacks forms item.text) := by
  intro registry c forms
  have hplain : c.PlainResults := by
    rintro _ ⟨⟩
    refine ⟨fun f hf args t ht => ?_, nofun⟩
    obtain rfl := List.mem_singleton.1 hf
    cases ht
    decide
  refine ⟨hplain, ⟨⟨"$\x7bb\x7d".toList, [("a".toList, "$\x7bb\x7d".toList)]⟩, ?_, by decide⟩,
    ⟨⟨"$\x7bx1\x7d".toList, []⟩, ?_, by decide⟩,
    ⟨⟨"$FUNC\x7bf,x\x7d".toList, [("b".toList, "x".toList)]⟩, ?_, by decide⟩⟩
  · exact result_resolve_of_one_value (by rintro ⟨⟩ <;> rfl) rfl rfl rfl (by decide)
  · obtain ⟨inner, hinner⟩ := c.exists_resolve_eq "$\x7bx$FUNC\x7bf\x7d\x7d".toList
    rw [hinner]
    rfl
  · exact result_resolve_of_one_value (by rintro ⟨⟩ <;> rfl) rfl rfl rfl (by decide)

end Context

end Wcl
