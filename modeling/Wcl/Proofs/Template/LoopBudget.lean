import Wcl.Proofs.Template.Expansion
import Wcl.Proofs.Template.Inner

/-!
# What an expansion costs and gives

One turn of expansion takes a text off the stack (`Context.Pops`), and turns one
after another are counted with the texts that they take and make
(`Context.Expanding`), whatever the budget is.  The budget only says how far the
turns go: turns that cost no more than it lead to where the stack is expanded
with the rest of it, and turns that cost more are an error
(`Expanding.expandStack`).  The other way round, within any budget the turns come
to an empty stack or to a text that no turn takes (`exists_expanding`).

A text makes at least as many texts as are finished in the end, and the first
turn costs one, so that a template expands to fewer texts than the budget:
`Context.resolve_expansion`.
-/

namespace Wcl

namespace Context

variable {c : Context} {template : Text} {item : Combination}
  {stack rest finished : List Combination} {popped made budget : Nat}

/-! ### Turns -/

/-- A turn takes the text on top of the stack.  It is finished, or each value of
its first loop token makes another one; of these some are finished and the
others go onto the stack. -/
inductive Pops (c : Context) :
    List Combination → (made : Nat) → (finished rest : List Combination) → Prop
  | finished {item : Combination} {stack : List Combination} :
    Token.first? loopKind item.text = none → Pops c (item :: stack) 0 [item] stack
  | branches {item : Combination} {token : Token} {text : Text} {items stack : List Combination} :
    Token.first? loopKind item.text = some token →
      c.document.find? c.scope (Token.nameIn token.body) = some (.scalar text) →
      (Text.valueList ',' text).mapM (assign item token) = .ok items →
      Pops c (item :: stack) items.length (items.filter (!hasLoops ·.text))
        ((items.filter (hasLoops ·.text)).reverse ++ stack)

/-- Turns one after another: how many texts they take and make, which texts they
finish and which stack they leave. -/
inductive Expanding (c : Context) :
    List Combination → (popped made : Nat) → (finished rest : List Combination) → Prop
  | refl {stack : List Combination} : Expanding c stack 0 0 [] stack
  | step {stack next rest finished finished' : List Combination} {popped made made' : Nat} :
    Pops c stack made finished next → Expanding c next popped made' finished' rest →
      Expanding c stack (popped + 1) (made + made') (finished ++ finished') rest

theorem length_of_mapM {α β ε : Type} {f : α → Except ε β} {as : List α} {bs : List β}
    (h : as.mapM f = .ok bs) : bs.length = as.length := by
  induction as generalizing bs with
  | nil =>
    cases h
    rfl
  | cons a as ih =>
    rw [List.mapM_cons] at h
    obtain ⟨b, _, h⟩ := exists_of_bind h
    obtain ⟨others, hothers, h⟩ := exists_of_bind h
    cases h
    rw [List.length_cons, List.length_cons, ih hothers]

theorem loopValues_eq (template : Text) {token : Token} {text : Text}
    (hbudget : budget < loopBudget)
    (hfind : c.document.find? c.scope (Token.nameIn token.body) = some (.scalar text)) :
    c.loopValues template budget token =
      if (Text.valueList ',' text).length ≤ budget then .ok (Text.valueList ',' text)
      else .error (.endless template) := by
  have hcount : budget < Text.countLimit - 1 := Nat.lt_trans hbudget (by decide)
  rw [loopValues, hfind]
  dsimp only
  rw [Text.splitWithin_eq hcount]
  by_cases hle : (Text.valueList ',' text).length ≤ budget
  · rw [if_pos hle, if_pos hle]
  · rw [if_neg hle, if_neg hle]

/-- An error in front of a stack is the error of the expansion. -/
theorem expandStack_error {token : Token} {e : Error}
    (hf : Token.first? loopKind item.text = some token)
    (h : (c.loopValues template budget token >>= fun values => values.mapM (assign item token)) =
      .error e) : c.expandStack template (budget + 1) (item :: stack) = .error e := by
  rw [expandStack, hf]
  dsimp only
  cases hvalues : c.loopValues template budget token with
  | error e' =>
    rw [hvalues] at h
    cases h
    rfl
  | ok values =>
    rw [hvalues] at h
    have hitems : values.mapM (assign item token) = .error e := h
    show (values.mapM (assign item token) >>= fun _ => _) = _
    rw [hitems]
    rfl

namespace Pops

theorem stack_ne_nil (h : c.Pops stack made finished rest) : stack ≠ [] := by
  cases h <;> exact List.cons_ne_nil _ _

/-- A turn that is made of a text with a loop gives the first token of it the
values of its variable. -/
theorem exists_values {token : Token} (h : c.Pops (item :: stack) made finished rest)
    (hf : Token.first? loopKind item.text = some token) :
    ∃ text items, c.document.find? c.scope (Token.nameIn token.body) = some (.scalar text) ∧
      (Text.valueList ',' text).mapM (assign item token) = .ok items ∧
      made = (Text.valueList ',' text).length := by
  cases h with
  | finished hnone =>
    rw [hf] at hnone
    cases hnone
  | branches hsome hfind hitems =>
    rw [hf] at hsome
    cases hsome
    exact ⟨_, _, hfind, hitems, length_of_mapM hitems⟩

/-- A turn is made if the budget is enough for it. -/
theorem expandStack (h : c.Pops stack made finished rest) (hbudget : budget < loopBudget) :
    c.expandStack template (budget + 1) stack =
      if made ≤ budget then (finished ++ ·) <$> c.expandStack template (budget - made) rest
      else .error (.endless template) := by
  cases h with
  | finished hf =>
    rw [Context.expandStack, hf, if_pos (Nat.zero_le _), Nat.sub_zero]
    rfl
  | branches hf hfind hitems =>
    have hvalues := loopValues_eq template hbudget hfind
    rw [length_of_mapM hitems]
    split
    · next hle =>
      rw [if_pos hle] at hvalues
      exact expandStack_some _ hf hvalues hitems
    · next hle =>
      rw [if_neg hle] at hvalues
      exact expandStack_error hf (by rw [hvalues]; rfl)

/-- What a turn finishes and leaves is what was there and what it makes, but for
the text that it takes. -/
theorem length_add (h : c.Pops stack made finished rest) :
    finished.length + rest.length ≤ stack.length + made := by
  cases h with
  | finished _ =>
    rw [List.length_singleton, List.length_cons]
    omega
  | @branches _ _ _ items stack _ _ _ =>
    have hitems := List.length_eq_length_filter_add (l := items) (hasLoops ·.text)
    rw [List.length_append, List.length_reverse, List.length_cons]
    omega

/-- A text with a loop is not finished itself. -/
theorem length_add_of_hasLoops (h : c.Pops (item :: stack) made finished rest)
    (hloops : hasLoops item.text = true) :
    finished.length + rest.length = stack.length + made := by
  cases h with
  | finished hf =>
    rw [hasLoops, hf] at hloops
    cases hloops
  | @branches _ _ _ items _ _ _ _ =>
    have hitems := List.length_eq_length_filter_add (l := items) (hasLoops ·.text)
    rw [List.length_append, List.length_reverse]
    omega

end Pops

/-! ### Runs -/

namespace Expanding

/-- Turns are made as far as the budget is enough for them. -/
theorem expandStack (h : c.Expanding stack popped made finished rest)
    (hbudget : budget ≤ loopBudget) :
    c.expandStack template budget stack =
      if popped + made ≤ budget then
        (finished ++ ·) <$> c.expandStack template (budget - (popped + made)) rest
      else .error (.endless template) := by
  induction h generalizing budget with
  | refl =>
    rw [if_pos (Nat.zero_le _)]
    exact (id_map _).symm
  | @step stack next rest finished finished' popped made made' hpops _ ih =>
    cases budget with
    | zero =>
      obtain ⟨item, stack, rfl⟩ := List.exists_cons_of_ne_nil hpops.stack_ne_nil
      rw [Context.expandStack, if_neg (by omega)]
    | succ budget =>
      rw [hpops.expandStack (by omega), ih (by omega)]
      by_cases hmade : made ≤ budget
      · rw [if_pos hmade]
        by_cases hrest : popped + made' ≤ budget - made
        · have hleft : budget - made - (popped + made') =
              budget + 1 - (popped + 1 + (made + made')) := by omega
          rw [if_pos hrest, if_pos (by omega), hleft, Functor.map_map]
          simp only [List.append_assoc]
        · rw [if_neg hrest, if_neg (by omega)]
          rfl
      · rw [if_neg hmade, if_neg (by omega)]

/-- Turns that empty the stack decide what comes of it. -/
theorem result (h : c.Expanding [item] popped made finished []) :
    c.expandLoops item =
      if popped + made ≤ loopBudget then .ok finished else .error (.endless item.text) := by
  rw [expandLoops, h.expandStack (Nat.le_refl _), Context.expandStack]
  show (if _ then Except.ok (finished ++ []) else _) = _
  rw [List.append_nil]

theorem length_add (h : c.Expanding stack popped made finished rest) :
    finished.length + rest.length ≤ stack.length + made := by
  induction h with
  | refl => simp
  | step hpops _ ih =>
    have hturn := hpops.length_add
    rw [List.length_append]
    omega

/-- A text with a loop makes as many texts as are finished. -/
theorem length_le (h : c.Expanding [item] popped made finished [])
    (hloops : hasLoops item.text = true) : finished.length ≤ made ∧ 1 ≤ popped := by
  cases h with
  | step hpops hrest =>
    have hturn := hpops.length_add_of_hasLoops hloops
    have hlater := hrest.length_add
    rw [List.length_nil] at hturn hlater
    rw [List.length_append]
    omega

end Expanding

/-- A turn is made, or nothing more comes of the stack within the budget. -/
theorem exists_pops_or (c : Context) (template : Text) (item : Combination)
    (stack : List Combination) (hbudget : budget < loopBudget) :
    (∃ made finished rest, c.Pops (item :: stack) made finished rest ∧ made ≤ budget) ∨
      (∃ e, c.expandStack template (budget + 1) (item :: stack) = .error e) ∧
        ∀ made finished rest, c.Pops (item :: stack) made finished rest → budget < made := by
  cases hf : Token.first? loopKind item.text with
  | none => exact .inl ⟨_, _, _, .finished hf, Nat.zero_le _⟩
  | some token =>
    have hstuck : (∃ e, c.loopValues template budget token = .error e) →
        ∃ e, c.expandStack template (budget + 1) (item :: stack) = .error e := by
      rintro ⟨e, he⟩
      exact ⟨e, expandStack_error hf (by rw [he]; rfl)⟩
    cases hfind : c.document.find? c.scope (Token.nameIn token.body) with
    | none =>
      refine .inr ⟨hstuck ⟨_, by rw [loopValues, hfind]⟩, fun _ _ _ hpops => ?_⟩
      obtain ⟨_, _, hfound, _, _⟩ := hpops.exists_values hf
      rw [hfind] at hfound
      cases hfound
    | some value =>
      cases value with
      | nested d =>
        refine .inr ⟨hstuck ⟨_, by rw [loopValues, hfind]⟩, fun _ _ _ hpops => ?_⟩
        obtain ⟨_, _, hfound, _, _⟩ := hpops.exists_values hf
        rw [hfind] at hfound
        cases hfound
      | scalar text =>
        have hvalues := loopValues_eq template hbudget hfind
        by_cases hle : (Text.valueList ',' text).length ≤ budget
        · rw [if_pos hle] at hvalues
          cases hitems : (Text.valueList ',' text).mapM (assign item token) with
          | ok items =>
            exact .inl ⟨_, _, _, .branches hf hfind hitems, (length_of_mapM hitems).symm ▸ hle⟩
          | error e =>
            refine .inr ⟨⟨e, expandStack_error hf (by rw [hvalues]; exact hitems)⟩,
              fun _ _ _ hpops => ?_⟩
            obtain ⟨_, _, hfound, hok, _⟩ := hpops.exists_values hf
            rw [hfind] at hfound
            cases hfound
            rw [hitems] at hok
            cases hok
        · rw [if_neg hle] at hvalues
          refine .inr ⟨hstuck ⟨_, hvalues⟩, fun _ _ _ hpops => ?_⟩
          obtain ⟨_, _, hfound, _, rfl⟩ := hpops.exists_values hf
          rw [hfind] at hfound
          cases hfound
          exact Nat.lt_of_not_le hle

/-- Within a budget turns empty the stack, or they come to a text where
expanding fails and that no turn takes at what is left of the budget. -/
theorem exists_expanding (c : Context) (template : Text) (stack : List Combination)
    (hbudget : budget ≤ loopBudget) :
    ∃ popped made finished rest, c.Expanding stack popped made finished rest ∧
      popped + made ≤ budget ∧
      (rest = [] ∨ rest ≠ [] ∧ (∃ e, c.expandStack template budget stack = .error e) ∧
        ∀ made' finished' rest', c.Pops rest made' finished' rest' →
          budget < popped + made + (1 + made')) := by
  induction budget using Nat.strong_induction_on generalizing stack with
  | _ budget ih =>
  cases stack with
  | nil => exact ⟨0, 0, [], [], .refl, Nat.zero_le _, .inl rfl⟩
  | cons item stack =>
    cases budget with
    | zero =>
      refine ⟨0, 0, [], item :: stack, .refl, Nat.le_refl _,
        .inr ⟨List.cons_ne_nil _ _, ⟨_, by rw [expandStack]⟩, fun _ _ _ _ => ?_⟩⟩
      omega
    | succ budget =>
      rcases c.exists_pops_or template item stack hbudget with
        ⟨made, finished, next, hpops, hle⟩ | ⟨herror, hstuck⟩
      · obtain ⟨popped, made', finished', rest, hrun, hcost, hend⟩ :=
          ih (budget - made) (by omega) next (by omega)
        refine ⟨_, _, _, rest, .step hpops hrun, by omega, hend.imp_right ?_⟩
        rintro ⟨hne, ⟨e, he⟩, hstuck⟩
        refine ⟨hne, ⟨e, ?_⟩, fun made₂ finished₂ rest₂ hpops₂ => ?_⟩
        · rw [hpops.expandStack hbudget, if_pos hle, he]
          rfl
        · have hmore := hstuck made₂ finished₂ rest₂ hpops₂
          omega
      · refine ⟨0, 0, [], item :: stack, .refl, Nat.zero_le _,
          .inr ⟨List.cons_ne_nil _ _, herror, fun made' finished' rest' hpops => ?_⟩⟩
        have hmore := hstuck made' finished' rest' hpops
        omega

/-! ### A whole template -/

/-- What a template resolves to, by what expanding makes of the text that
substitution leaves. -/
theorem resolveWith_eq_ok_iff {inner : (name value : Text) → Traced Text} {r : Resolved} :
    (c.resolveWith inner template).result = .ok r ↔
      ∃ before, (c.substituteAll inner template).result = .ok before ∧
        ((r = .single before ∧ (hasLoops before.text = true → c.expandLoops before = .ok [])) ∨
          ∃ items, r = .expanded items ∧ hasLoops before.text = true ∧ items ≠ [] ∧
            c.expandLoops before = .ok items) := by
  constructor
  · intro h
    obtain ⟨_, _, h⟩ := Traced.bind_eq_ok.1 h
    obtain ⟨before, hbefore, h⟩ := Traced.bind_eq_ok.1 h
    refine ⟨before, hbefore, ?_⟩
    split at h
    · next hloops =>
      obtain ⟨items, hitems, h⟩ := Traced.bind_eq_ok.1 h
      rw [Traced.result_ofExcept] at hitems
      split at h
      · next hempty =>
        cases h
        exact .inl ⟨rfl, fun _ => by rw [hitems, List.isEmpty_iff.1 hempty]⟩
      · next hempty =>
        cases h
        exact .inr ⟨items, rfl, hloops, fun he => hempty (List.isEmpty_iff.2 he), hitems⟩
    · next hloops =>
      cases h
      exact .inl ⟨rfl, fun h => absurd h hloops⟩
  · rintro ⟨before, hbefore, hr⟩
    refine Traced.bind_eq_ok.2 ⟨(), rfl, Traced.bind_eq_ok.2 ⟨before, hbefore, ?_⟩⟩
    obtain ⟨rfl, hleft⟩ | ⟨items, rfl, hloops, hne, hitems⟩ := hr
    · split
      · next hloops => exact Traced.bind_eq_ok.2 ⟨[], hleft hloops, rfl⟩
      · rfl
    · rw [if_pos hloops]
      refine Traced.bind_eq_ok.2 ⟨items, hitems, ?_⟩
      rw [if_neg (mt List.isEmpty_iff.1 hne)]
      rfl

/-- **Expanding ends within its budget, and what it gives is finished.**  From any
text the turns empty the stack at a cost within the budget, and the texts that
they finish are the result, or they come to a text that cannot be expanded or
that would cost too much, which is an error; turns that empty the stack at a
higher cost are an error as well.  So a template that is expanded becomes at
least one text and at most 999, all of them without a loop, and one that is not
is what substitution leaves, where a loop is left only if expanding gave
nothing. -/
theorem resolve_expansion (c : Context) :
    (∀ item : Combination,
      (∃ popped made finished rest, c.Expanding [item] popped made finished rest ∧
        popped + made ≤ 1000 ∧
        (rest = [] ∧ c.expandLoops item = .ok finished ∨
          rest ≠ [] ∧ (∃ e, c.expandLoops item = .error e) ∧
            ∀ made' finished' rest', c.Pops rest made' finished' rest' →
              1000 < popped + made + (1 + made'))) ∧
      ∀ popped made finished, c.Expanding [item] popped made finished [] →
        c.expandLoops item =
          if popped + made ≤ 1000 then .ok finished else .error (.endless item.text)) ∧
    ∀ template r, (c.resolve template).result = .ok r →
      ∃ before, (c.substituteAll (c.valueIn (c.depthBound - 1) [] template) template).result
          = .ok before ∧
        (∀ items, r = .expanded items → c.expandLoops before = .ok items ∧
          1 ≤ items.length ∧ items.length ≤ 999 ∧
          ∀ item ∈ items, hasLoops item.text = false) ∧
        ∀ item, r = .single item → item = before ∧
          (hasLoops item.text = true → c.expandLoops before = .ok []) := by
  have hrun : ∀ item : Combination, ∃ popped made finished rest,
      c.Expanding [item] popped made finished rest ∧ popped + made ≤ 1000 ∧
        (rest = [] ∧ c.expandLoops item = .ok finished ∨
          rest ≠ [] ∧ (∃ e, c.expandLoops item = .error e) ∧
            ∀ made' finished' rest', c.Pops rest made' finished' rest' →
              1000 < popped + made + (1 + made')) := by
    intro item
    obtain ⟨popped, made, finished, rest, h, hcost, hend⟩ :=
      c.exists_expanding item.text [item] (Nat.le_refl loopBudget)
    refine ⟨popped, made, finished, rest, h, hcost, hend.imp_left ?_⟩
    rintro rfl
    exact ⟨rfl, by rw [h.result, if_pos hcost]⟩
  refine ⟨fun item => ⟨hrun item, fun popped made finished h => h.result⟩, ?_⟩
  intro template r h
  rw [resolve_eq] at h
  obtain ⟨before, hbefore, hr⟩ := resolveWith_eq_ok_iff.1 h
  refine ⟨before, hbefore, ?_, ?_⟩
  · rintro items rfl
    obtain ⟨he, _⟩ | ⟨items', he, hloops, hne, hitems⟩ := hr
    · cases he
    · cases he
      refine ⟨hitems, List.length_pos_iff.2 hne, ?_, fun item hitem =>
        (fills_of_expandStack hitems item hitem).1⟩
      obtain ⟨popped, made, finished, rest, hexpanding, hcost, ⟨rfl, hok⟩ | ⟨_, ⟨e, he⟩, _⟩⟩ :=
        hrun before
      · rw [hitems] at hok
        cases hok
        have hlen := hexpanding.length_le hloops
        omega
      · rw [hitems] at he
        cases he
  · rintro item rfl
    obtain ⟨he, hleft⟩ | ⟨items', he, _, _, _⟩ := hr
    · cases he
      exact ⟨rfl, hleft⟩
    · cases he

/-- A value with a loop in it, and a range without numbers. -/
def loopingContext : Context where
  document := .ofList
    [("a".toList, .scalar "x$LOOP\x7bb\x7d,z".toList), ("b".toList, .scalar "1:2".toList),
      ("e".toList, .scalar "2:1".toList)]

theorem resolve_expansion_looping :
    let c := loopingContext
    let items : List Combination :=
      [⟨"z".toList, [("a".toList, "z".toList)]⟩,
        ⟨"x1".toList, [("a".toList, "x$LOOP\x7bb\x7d".toList), ("b".toList, "1".toList)]⟩,
        ⟨"x2".toList, [("a".toList, "x$LOOP\x7bb\x7d".toList), ("b".toList, "2".toList)]⟩]
    let left : Combination := ⟨"$LOOP\x7be\x7d".toList, []⟩
    let seed : Combination := ⟨"$LOOP\x7ba\x7d".toList, []⟩
    c.Expanding [seed] 2 4 items [] ∧ c.expandLoops seed = .ok items ∧
      (c.resolve seed.text).result = .ok (.expanded items) ∧
      (∀ item ∈ items, hasLoops item.text = false) ∧
      (c.resolve "$LOOP\x7be\x7d".toList).result = .ok (.single left) ∧
      hasLoops left.text = true ∧ c.expandLoops left = .ok [] := by
  intro c items left seed
  -- The seed makes two texts, the unfinished one of these two more.
  let a : Token := ⟨seed.text, "a".toList⟩
  let b : Token := ⟨"$LOOP\x7bb\x7d".toList, "b".toList⟩
  let inner : Combination :=
    ⟨"x$LOOP\x7bb\x7d".toList, [("a".toList, "x$LOOP\x7bb\x7d".toList)]⟩
  let last : Combination := ⟨"z".toList, [("a".toList, "z".toList)]⟩
  have hseed : ["x$LOOP\x7bb\x7d".toList, "z".toList].mapM (assign seed a) =
      .ok [inner, last] := rfl
  have hinner : ["1".toList, "2".toList].mapM (assign inner b) = .ok items.tail := rfl
  have hfirst : c.Pops [seed] 2 [last] [inner] :=
    @Pops.branches c seed a _ [inner, last] [] rfl rfl hseed
  have hsecond : c.Pops [inner] 2 items.tail [] :=
    @Pops.branches c inner b _ items.tail [] rfl rfl hinner
  have hrun : c.Expanding [seed] 2 4 items [] := .step hfirst (.step hsecond .refl)
  have hpops : c.Pops [left] 0 [] [] :=
    @Pops.branches c left ⟨left.text, "e".toList⟩ _ [] [] rfl rfl List.mapM_nil
  have hempty : c.Expanding [left] 1 0 [] [] := .step hpops .refl
  have hitems : (c.resolve seed.text).result = .ok (.expanded items) := by
    rw [resolve_eq, result_resolveWith_of_none (by rintro ⟨⟩ <;> rfl) rfl, hrun.result]
    rfl
  have hleft : (c.resolve "$LOOP\x7be\x7d".toList).result = .ok (.single left) := by
    rw [resolve_eq, result_resolveWith_of_none (by rintro ⟨⟩ <;> rfl) rfl, hempty.result]
    rfl
  obtain ⟨_, _, hexpanded, _⟩ := c.resolve_expansion.2 _ _ hitems
  obtain ⟨_, _, _, hsingle⟩ := c.resolve_expansion.2 _ _ hleft
  obtain ⟨rfl, hexpand⟩ := hsingle left rfl
  have hloops : hasLoops left.text = true := by decide
  exact ⟨hrun, (c.resolve_expansion.1 seed).2 2 4 items hrun, hitems, (hexpanded items rfl).2.2.2,
    hleft, hloops, hexpand hloops⟩

end Context

end Wcl
