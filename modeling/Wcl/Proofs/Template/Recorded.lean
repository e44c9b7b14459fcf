import Wcl.Proofs.Template.Padding

/-!
# What is recorded of variables

Each variable that has one value is recorded when something is put for it: its
value as it is found or, for a reference with a width, the number that this value
comes to by itself (`Context.Records`).  Nothing else is ever recorded, and later
turns leave it (`Context.records_of_substituteAll`).

So a recorded value with nothing to resolve is what the value of the variable
comes to, and the reference to the variable comes to it as well:
`Context.resolve_recorded`.  Where the value that is found is another text the
reference takes more tokens than the value does, and other turns: the limit can be
in its way, and a header that only stands there when variables have settled.
-/

namespace Wcl

namespace Bindings

theorem mem_of_mem_insert {name value : Text} {b : Text × Text} {bs : Bindings}
    (h : b ∈ insert name value bs) : b = (name, value) ∨ b ∈ bs := by
  induction bs with
  | nil => exact .inl (List.mem_singleton.1 h)
  | cons p bs ih =>
    rw [insert] at h
    split at h
    · exact (List.mem_cons.1 h).imp_right (List.mem_cons_of_mem p)
    · split at h
      · exact List.mem_cons.1 h
      · rcases List.mem_cons.1 h with rfl | h
        · exact .inr (List.mem_cons_self ..)
        · exact (ih h).imp_right (List.mem_cons_of_mem p)

end Bindings

namespace Context

variable {c : Context} {inner : (name value : Text) → Traced Text} {template name value : Text}
  {form : Form} {token : Token} {new : Replacement} {item item' : Combination} {changed : Bool}

/-! ### Recording -/

/-- What can be recorded of a variable, where `inner` resolves values by themselves. -/
structure Records (c : Context) (inner : (name value : Text) → Traced Text)
    (name value : Text) : Prop where
  dollar : '$' ∉ name
  brace : '}' ∉ name
  colon : ':' ∉ name
  found : ∃ v, c.document.find? c.scope name = some (.scalar v) ∧ Text.isMultiValued v = false ∧
    (value = v ∨ (inner name v).result = .ok value ∧ '$' ∉ value)

theorem records_of_variableValue? (htoken : IsToken (.form form) token)
    (hnew : (c.variableValue? inner token.body).result = .ok (some new)) :
    ∀ b ∈ new.binding, c.Records inner b.1 b.2 := by
  have hname : Token.nameIn token.body ⊆ token.body := Text.cutAt_subset ':' token.body
  have hrecords : ∀ v value, c.document.find? c.scope (Token.nameIn token.body) =
      some (.scalar v) → Text.isMultiValued v = false →
      (value = v ∨ (inner (Token.nameIn token.body) v).result = .ok value ∧ '$' ∉ value) →
      c.Records inner (Token.nameIn token.body) value :=
    fun v value hfind hsingle hvalue => ⟨fun hm => htoken.dollar (hname hm),
      fun hm => htoken.brace (hname hm), Text.notMem_cutAt ':' token.body,
      v, hfind, hsingle, hvalue⟩
  unfold variableValue? at hnew
  dsimp only at hnew
  split at hnew
  · cases hnew
  · cases hnew
  · next v hfind =>
    split at hnew
    · cases hnew
      exact nofun
    · next hmulti =>
      have hsingle := eq_false_of_ne_true hmulti
      split at hnew
      · cases hnew
        rintro _ ⟨⟩
        exact hrecords v v hfind hsingle (.inl rfl)
      · obtain ⟨number, hnumber, hnew⟩ := Traced.bind_eq_ok.1 hnew
        split at hnew
        · next padded hpadded =>
          cases hnew
          rintro _ ⟨⟩
          exact hrecords v number hfind hsingle
            (.inr ⟨hnumber, (Text.notMem_of_zeroPad?_eq_some hpadded).1⟩)
        · cases hnew

theorem records_of_replacement? (htoken : IsToken (.form form) token)
    (hnew : (c.replacement? inner form token.body).result = .ok (some new)) :
    ∀ b ∈ new.binding, c.Records inner b.1 b.2 := by
  cases form with
  | header =>
    obtain ⟨_, _, hnew⟩ := Traced.bind_eq_ok.1 hnew
    cases hnew
    exact nofun
  | function =>
    obtain ⟨_, _, hnew⟩ := Traced.bind_eq_ok.1 hnew
    cases hnew
    exact nofun
  | optional => exact records_of_variableValue? htoken hnew
  | required => exact records_of_variableValue? htoken hnew

/-- A pass adds to what is recorded only what it puts something for. -/
theorem Passes.bindings {P : Text × Text → Prop} (h : c.Passes inner form item item' changed)
    (hnew : ∀ token new, IsToken (.form form) token →
      (c.replacement? inner form token.body).result = .ok (some new) → ∀ b ∈ new.binding, P b)
    (hP : ∀ b ∈ item.bindings, P b) : ∀ b ∈ item'.bindings, P b := by
  induction h with
  | done _ => exact hP
  | @found item item' token new changed hf hrep _ ih =>
    have hadded := hnew token new (Form.isToken_of_first? hf).1 hrep
    refine ih fun b hb => ?_
    rw [Combination.substitute] at hb
    cases hbinding : new.binding with
    | none =>
      rw [hbinding] at hb
      exact hP b hb
    | some added =>
      rw [hbinding] at hb
      rcases Bindings.mem_of_mem_insert hb with rfl | hb
      · exact hadded _ hbinding
      · exact hP b hb
  | dropped _ _ _ _ ih => exact ih hP

/-- Nothing else is recorded on the way through a template. -/
theorem records_of_substituteAll (h : (c.substituteAll inner template).result = .ok item) :
    ∀ b ∈ item.bindings, c.Records inner b.1 b.2 := by
  have hturns : ∀ {forms : List Form} {start before stop : Combination},
      c.Turns inner template forms start before stop →
      (∀ b ∈ start.bindings, c.Records inner b.1 b.2) →
      ∀ b ∈ stop.bindings, c.Records inner b.1 b.2 := by
    intro forms start before stop hturns hstart
    refine (hturns.preserves (P := fun item => ∀ b ∈ item.bindings, c.Records inner b.1 b.2)
      (fun form _ _ _ _ hpass => ?_) hstart).2
    exact hpass.bindings fun token new htoken hnew => records_of_replacement? htoken hnew
  obtain ⟨settled, hsettled, hcalled⟩ := Traced.bind_eq_ok.1 h
  obtain ⟨_, hsettles⟩ := turns_of_untilStable hsettled
  obtain ⟨_, hcalls⟩ := turns_of_untilStable hcalled
  exact hturns hcalls (hturns hsettles nofun)

/-! ### Values with nothing to resolve -/

theorem resolveSingle_of_concrete (c : Context) {t : Text} (h : Concrete t) :
    (c.resolveSingle t).result = .ok t :=
  resolveSingle_eq_ok_iff.2 ⟨⟨t, []⟩, substituteAll_of_none h.first?_form,
    [], by rw [h.hasLoops_eq]; rfl, .inl ⟨rfl, rfl⟩⟩

/-- The reference to a variable whose value has nothing to resolve. -/
theorem resolveSingle_reference_of_found (hexp : c.expand = false)
    (href : IsReference .required name (reference name)) {v : Text}
    (hfind : c.document.find? c.scope name = some (.scalar v)) (hv : Concrete v) :
    (c.resolveSingle (reference name)).result = .ok v := by
  have hnew : (c.variableValue? (c.valueIn (c.depthBound - 1) [] (reference name)) name).result =
      .ok (some ⟨v, if Text.isMultiValued v then none else some (name, v)⟩) := by
    rw [result_variableValue? hexp href.colon, hfind]
  exact (resolveSingle_reference_of_concrete href.isToken hnew hv).2 rfl

/-- **Recorded values are resolved values, if nothing in them is left to resolve.**
A recorded value is then what the value found for the variable comes to by
itself.  If it is that value, the reference to the variable comes to it.  If it is
not, and there is no header reader, the reference comes to nothing else; and if no
key has a dollar sign either, it does come to it, or to the limit, since it has one
token more to replace.  With a header reader and such keys it comes to nothing else
that has no header. -/
theorem resolve_recorded (c : Context) (hexp : c.expand = false) {template : Text}
    {item : Combination} (h : (c.resolve template).result = .ok (.single item))
    {name value : Text} (hbinding : (name, value) ∈ item.bindings) (hvalue : Concrete value) :
    ∃ v, c.document.find? c.scope name = some (.scalar v) ∧ Text.isMultiValued v = false ∧
      (c.resolveSingle v).result = .ok value ∧
      (name ≠ [] →
        (value = v → (c.resolveSingle (reference name)).result = .ok value) ∧
        ((∀ r ∈ c.registry, r.headerReader = none) →
          (∀ t, (c.resolveSingle (reference name)).result = .ok t → t = value) ∧
          ((∀ key ∈ c.document.names c.scope, '$' ∉ key) →
            (c.resolveSingle (reference name)).result = .ok value ∨
              (c.resolveSingle (reference name)).result =
                .error (.endless (reference name)))) ∧
        ((∀ key ∈ c.document.names c.scope, '$' ∉ key) →
          ∀ t, (c.resolveSingle (reference name)).result = .ok t → Lacks [.header] t →
            t = value)) := by
  rw [resolve_eq] at h
  obtain ⟨called, hcalled, ⟨hitem, _⟩ | ⟨_, hitem, _⟩⟩ := resolveWith_eq_ok_iff.1 h
  · cases hitem
    obtain ⟨hdollar, hbrace, hcolon, v, hfind, hsingle, hrecorded⟩ :=
      records_of_substituteAll hcalled _ hbinding
    have hresolved : (c.resolveSingle v).result = .ok value := by
      rcases hrecorded with rfl | ⟨hnumber, _⟩
      · exact c.resolveSingle_of_concrete hvalue
      · exact resolveSingle_of_valueIn (Nat.sub_le c.depthBound 1) hnumber
    refine ⟨v, hfind, hsingle, hresolved, fun hne => ?_⟩
    have href := isReference_reference hne hdollar hbrace hcolon
    have hsame : value = v → (c.resolveSingle (reference name)).result = .ok value := by
      rintro rfl
      exact resolveSingle_reference_of_found hexp href hfind hvalue
    have hstart : ∀ inner,
        c.Exchanged inner [.header, .optional, .required] (reference name) v :=
      fun inner => exchanged_reference hexp href hfind
    refine ⟨hsame, fun hreader => ⟨fun t ht => ?_, fun hnames => ?_⟩,
      fun hnames t ht hheader => ?_⟩
    · exact Exchanged.unique_of_resolveSingle hreader hstart ht hresolved
    · rcases hrecorded with hv | ⟨_, hplain⟩
      · exact .inl (hsame hv)
      · exact (Exchanged.okOr_resolveSingle hnames hreader hstart hresolved hplain).imp_left
          fun ⟨t, ht, he⟩ => he ▸ ht
    · exact Exchanged.unique_of_lacks hnames hstart ht hheader hresolved
        fun form _ => hvalue.first?_form form
  · cases hitem

/-- A variable by its value, one by the number that its value comes to, and one by
both, whose value is a number. -/
def recordingContext : Context where
  document := .ofList
    [("a".toList, .scalar "$\x7bb\x7d2".toList), ("b".toList, .scalar "1".toList),
      ("d".toList, .scalar "/data".toList)]

theorem resolve_recorded_mixed :
    let c := recordingContext
    let item : Combination := ⟨"/data/012-1-01".toList,
      [("a".toList, "12".toList), ("b".toList, "1".toList), ("d".toList, "/data".toList)]⟩
    (c.resolve "$opt\x7bd\x7d/$\x7ba:3\x7d-$\x7bb\x7d-$\x7bb:2\x7d".toList).result =
      .ok (.single item) ∧
    (c.resolveSingle "$\x7bb\x7d2".toList).result = .ok "12".toList ∧
    ((c.resolveSingle (reference "a".toList)).result = .ok "12".toList ∨
      (c.resolveSingle (reference "a".toList)).result = .error (.endless (reference "a".toList))) ∧
    (c.resolveSingle (reference "b".toList)).result = .ok "1".toList ∧
    (c.resolveSingle (reference "d".toList)).result = .ok "/data".toList := by
  intro c item
  have hresolve : (c.resolve "$opt\x7bd\x7d/$\x7ba:3\x7d-$\x7bb\x7d-$\x7bb:2\x7d".toList).result =
      .ok (.single item) := by decide +kernel
  have ha : ("a".toList, "12".toList) ∈ item.bindings := by decide
  have hb : ("b".toList, "1".toList) ∈ item.bindings := by decide
  have hd : ("d".toList, "/data".toList) ∈ item.bindings := by decide
  obtain ⟨_, ⟨⟩, _, hnumber, hwide⟩ := c.resolve_recorded rfl hresolve ha (by decide)
  obtain ⟨_, ⟨⟩, _, _, hboth⟩ := c.resolve_recorded rfl hresolve hb (by decide)
  obtain ⟨_, ⟨⟩, _, _, hplain⟩ := c.resolve_recorded rfl hresolve hd (by decide)
  exact ⟨hresolve, hnumber, ((hwide (by decide)).2.1 nofun).2 (by decide), (hboth (by decide)).1 rfl,
    (hplain (by decide)).1 rfl⟩

/-- The names of a chain: ten letters for its sections, ten for the keys in each. -/
def chainName (k : Nat) : Text := [Char.ofNat (97 + k / 10), '.', Char.ofNat (97 + k % 10)]

/-- A hundred variables, each with a reference to the next one as its value. -/
def chainContext : Context where
  document := .ofList ((List.range 10).map (fun i => ([Char.ofNat (97 + i)],
      .nested (.ofList ((List.range 10).map fun j =>
        ([Char.ofNat (97 + j)], .scalar (reference (chainName (10 * i + j + 1)))))))) ++
    [("k".toList, .nested (.ofList [("a".toList, .scalar "5".toList)]))])

/-- Values that are recorded and that the reference to the variable does not come
to: one that is found with a reference in it, that of a variable without a name, one
where the reference is a token too many, one where a header is left when variables
have settled, and one where a header is left that a key with a dollar sign hides. -/
theorem exists_recorded_ne :
    let registry : Registry := { headerReader := some fun _ _ => .ok "7".toList }
    let places : List (Context × Text × Text × Text) := [
      (⟨.ofList [("a".toList, .scalar (reference "b".toList)), ("b".toList, .scalar "x".toList)],
        {}, false, none⟩, reference "a".toList, "a".toList, reference "b".toList),
      (⟨.ofList [([], .scalar "7".toList)], {}, false, none⟩,
        reference ":3".toList, [], "7".toList),
      (chainContext, reference "a.a:3".toList, "a.a".toList, "5".toList),
      (⟨.ofList [("n".toList, .scalar "$HE$opt\x7bx\x7dAD\x7bf$\x7bw\x7d\x7d".toList),
        ("w".toList, .scalar ",k".toList)], {}, false, some registry⟩,
        reference "n:3".toList, "n".toList, "7".toList),
      (⟨.ofList [("n".toList,
          .scalar "$LOOP\x7bx$HE$\x7bz\x7dAD\x7bf\x7d$opt\x7ba\x7d".toList),
        ("z".toList, .scalar "$opt\x7bm\x7d".toList), ("a".toList, .scalar []),
        ("x$head\x7bf".toList, .scalar "7".toList)], {}, false, none⟩,
        reference "n:3".toList, "n".toList, "7".toList)]
    ∀ place ∈ places, match place with
      | (c, template, name, value) => c.expand = false ∧ ∃ item,
        (c.resolve template).result = .ok (.single item) ∧ (name, value) ∈ item.bindings ∧
          (c.resolveSingle (reference name)).result ≠ .ok value := by
  intro registry places place hplace
  simp only [places, List.mem_cons, List.not_mem_nil, or_false] at hplace
  rcases hplace with rfl | rfl | rfl | rfl | rfl
  · exact ⟨rfl, ⟨"x".toList, [("a".toList, reference "b".toList), ("b".toList, "x".toList)]⟩,
      by decide +kernel, by decide, by decide +kernel⟩
  · exact ⟨rfl, ⟨"007".toList, [([], "7".toList)]⟩, by decide +kernel, by decide, by decide +kernel⟩
  · exact ⟨rfl, ⟨"005".toList, [("a.a".toList, "5".toList)]⟩,
      by decide +kernel, by decide, by decide +kernel⟩
  · exact ⟨rfl, ⟨"007".toList, [("n".toList, "7".toList)]⟩,
      by decide +kernel, by decide, by decide +kernel⟩
  · exact ⟨rfl, ⟨"007".toList, [("n".toList, "7".toList)]⟩,
      by decide +kernel, by decide, by decide +kernel⟩

end Context

end Wcl
