import Mathlib.Algebra.BigOperators.Ring.Finset
import Mathlib.Tactic.Ring
import Wcl.Proofs.Template.LoopTemplate
import Wcl.Proofs.Template.Substitution
import Wcl.Proofs.Template.ValueList

/-!
# Loops make every combination

A template whose dollar signs begin loop tokens resolves to one text for each
choice of values, in the order of the stack, or runs out of its budget:
`Context.resolve_loops`.

What an item on the stack costs and gives does not depend on what is below it
(`Context.Expands`).  So items of one cost add up (`expandStack_map`), and by
induction on the distinct loops of a text its item costs `expansionCost` and
gives a combination for each of the `choices` (`expands_spell`).
-/

namespace Wcl

open Finset (range)

/-! ### Choices -/

/-- A value for each of some loops. -/
abbrev Choice := List (Loop × Text)

/-- Every choice: the first loop slowest, the values of the last loop in order
and those of any other from the last to the first. -/
def choices (values : Loop → List Text) : List Loop → List Choice
  | [] => [[]]
  | [l] => (values l).map fun v => [(l, v)]
  | l :: l' :: ls =>
    (values l).reverse.flatMap fun v => (choices values (l' :: ls)).map ((l, v) :: ·)

/-- A piece with the value that a choice has for it. -/
def Piece.fill (choice : Choice) : Piece → Text
  | .char ch => [ch]
  | .loop l =>
    match choice.lookup l with
    | some v => l.shown v
    | none => l.token.spelling

/-- A text with the values of a choice, which are bound besides. -/
def combine (ps : List Piece) (b : Bindings) (choice : Choice) : Combination where
  text := ps.flatMap (Piece.fill choice)
  bindings := choice.foldl (fun b a => b.insert a.1.name a.2) b

/-- What it costs to expand loops with so many values: the item itself, and for
each value the text that is made and what it costs in turn. -/
def expansionCost : List Nat → Nat
  | [] => 0
  | n :: ns => 1 + n * (1 + expansionCost ns)

theorem fill_nil (ps : List Piece) : ps.flatMap (Piece.fill []) = spell ps := by
  refine congrArg (List.flatMap · ps) (funext fun p => ?_)
  cases p <;> rfl

/-- A value more is put first. -/
theorem fill_cons (l : Loop) (v : Text) (choice : Choice) (ps : List Piece) :
    ps.flatMap (Piece.fill ((l, v) :: choice))
      = (put l (l.shown v) ps).flatMap (Piece.fill choice) := by
  induction ps with
  | nil => rfl
  | cons p ps ih =>
    rw [List.flatMap_cons, ih]
    cases p with
    | char ch => rw [put_char, List.flatMap_cons]; rfl
    | loop l' =>
      by_cases he : l' = l
      · subst he
        rw [put_loop_self, List.flatMap_append, Piece.fill, List.lookup_cons_self]
        simp [List.flatMap_map, Piece.fill]
      · rw [put_loop_of_ne he, List.flatMap_cons, Piece.fill, List.lookup_cons,
          beq_false_of_ne he]
        rfl

theorem combine_cons (ps : List Piece) (b : Bindings) (l : Loop) (v : Text) (choice : Choice) :
    combine ps b ((l, v) :: choice)
      = combine (put l (l.shown v) ps) (b.insert l.name v) choice := by
  rw [combine, fill_cons]
  rfl

theorem combine_nil (ps : List Piece) (b : Bindings) : combine ps b [] = ⟨spell ps, b⟩ := by
  rw [combine, fill_nil]
  rfl

/-! ### One loop -/

/-- A text with a value put for a loop. -/
def assigned (ps : List Piece) (b : Bindings) (l : Loop) (v : Text) : Combination :=
  ⟨spell (put l (l.shown v) ps), b.insert l.name v⟩

theorem mapM_eq_ok {α β : Type} {f : α → Except Error β} {g : α → β} {as : List α}
    (h : ∀ a ∈ as, f a = .ok (g a)) : as.mapM f = .ok (as.map g) := by
  induction as with
  | nil => rfl
  | cons a as ih =>
    obtain ⟨ha, has⟩ := List.forall_mem_cons.1 h
    rw [List.mapM_cons, ha, ih has]
    rfl

namespace Context

variable {c : Context} {l : Loop} {ps : List Piece} {b : Bindings} {template : Text}

/-- The values of a loop. -/
def valuesOf (c : Context) (l : Loop) : List Text :=
  match c.document.find? c.scope l.name with
  | some (.scalar v) => Text.valueList ',' v
  | _ => []

/-- A loop whose variable is found as a scalar, with values that hold no token
and, if there is a width, can be padded to it. -/
structure Supplies (c : Context) (l : Loop) : Prop where
  found : ∃ v, c.document.find? c.scope l.name = some (.scalar v)
  dollar : ∀ v ∈ c.valuesOf l, '$' ∉ v
  padded : ∀ v ∈ c.valuesOf l, ∀ w ∈ l.width, (Text.zeroPad? v w).isSome

theorem Supplies.notMem_shown (h : c.Supplies l) {v : Text} (hv : v ∈ c.valuesOf l) :
    '$' ∉ l.shown v := by
  unfold Loop.shown
  cases hw : l.width with
  | none => exact h.dollar v hv
  | some w =>
    obtain ⟨shown, hs⟩ := Option.isSome_iff_exists.1 (h.padded v hv w hw)
    dsimp only
    rw [hs]
    exact Text.notMem_of_zeroPad? hs

theorem Supplies.assign_eq (h : c.Supplies l) (hl : l.Plain) (hps : ∀ p ∈ ps, p.Plain) {v : Text}
    (hv : v ∈ c.valuesOf l) : assign ⟨spell ps, b⟩ l.token v = .ok (assigned ps b l v) := by
  have hbody : l.token.body = l.body := rfl
  rw [assign, hbody, hl.widthIn?_body, hl.nameIn_body, assigned, ← replaceAll_spell hps hl]
  unfold Loop.shown
  cases hw : l.width with
  | none => rfl
  | some w =>
    obtain ⟨shown, hs⟩ := Option.isSome_iff_exists.1 (h.padded v hv w hw)
    dsimp only
    rw [hs]
    rfl

theorem Supplies.hasLoops_assigned (h : c.Supplies l) (hps : ∀ p ∈ ps, p.Plain) {ls : List Loop}
    (hls : distinctLoops ps = l :: ls) {v : Text} (hv : v ∈ c.valuesOf l) :
    hasLoops (assigned ps b l v).text = !ls.isEmpty := by
  rw [assigned, hasLoops_spell (plain_put hps (h.notMem_shown hv)), distinctLoops_put hls]

theorem Supplies.loopValues_eq (h : c.Supplies l) (hl : l.Plain) {limit : Nat}
    (hlimit : limit ≤ loopBudget) :
    c.loopValues template limit l.token =
      if (c.valuesOf l).length ≤ limit then .ok (c.valuesOf l) else .error (.endless template) := by
  obtain ⟨v, hv⟩ := h.found
  have hbody : l.token.body = l.body := rfl
  have hcount : limit < Text.countLimit - 1 := Nat.lt_of_le_of_lt hlimit (by decide)
  rw [loopValues, hbody, hl.nameIn_body, valuesOf, hv]
  dsimp only
  rw [Text.splitWithin_eq hcount]
  by_cases hle : (Text.valueList ',' v).length ≤ limit
  · rw [if_pos hle, if_pos hle]
  · rw [if_neg hle, if_neg hle]

/-! ### The stack -/

/-- An item on the stack costs `k` and gives `items`, whatever is below it. -/
def Expands (c : Context) (template : Text) (item : Combination) (k : Nat)
    (items : List Combination) : Prop :=
  ∀ budget ≤ loopBudget, ∀ stack, c.expandStack template budget (item :: stack) =
    if k ≤ budget then (items ++ ·) <$> c.expandStack template (budget - k) stack
    else .error (.endless template)

/-- The costs of items on the stack add up. -/
theorem expandStack_map {α : Type} {item : α → Combination} {k : Nat}
    {results : α → List Combination} {as : List α}
    (h : ∀ a ∈ as, c.Expands template (item a) k (results a)) {budget : Nat}
    (hbudget : budget ≤ loopBudget) (stack : List Combination) :
    c.expandStack template budget (as.map item ++ stack) =
      if as.length * k ≤ budget then
        (as.flatMap results ++ ·) <$> c.expandStack template (budget - as.length * k) stack
      else .error (.endless template) := by
  induction as generalizing budget with
  | nil => simp
  | cons a as ih =>
    obtain ⟨ha, has⟩ := List.forall_mem_cons.1 h
    rw [List.map_cons, List.cons_append, ha budget hbudget, ih has (by omega), List.length_cons,
      Nat.succ_mul, List.flatMap_cons]
    by_cases hk : k ≤ budget
    · rw [if_pos hk]
      by_cases hrest : as.length * k ≤ budget - k
      · rw [if_pos hrest, if_pos (by omega), Functor.map_map, Nat.sub_sub,
          Nat.add_comm k (as.length * k)]
        simp only [List.append_assoc]
      · rw [if_neg hrest, if_neg (by omega)]
        rfl
    · rw [if_neg hk, if_neg (by omega)]

/-- The texts that are made of the one on top of the stack come off it if they
are finished, and go onto it if they are not. -/
theorem expandStack_some {item : Combination} {token : Token} {values : List Text}
    {items : List Combination} {budget : Nat} (stack : List Combination)
    (hf : Token.first? loopKind item.text = some token)
    (hvalues : c.loopValues template budget token = .ok values)
    (hitems : values.mapM (assign item token) = .ok items) :
    c.expandStack template (budget + 1) (item :: stack) =
      (items.filter (!hasLoops ·.text) ++ ·) <$>
        c.expandStack template (budget - values.length)
          ((items.filter (hasLoops ·.text)).reverse ++ stack) := by
  rw [expandStack, hf]
  dsimp only
  rw [hvalues]
  show (values.mapM (assign item token) >>= fun items => _) = _
  rw [hitems]
  rfl

/-- The item on top of the stack is given each value of its first loop. -/
theorem expandStack_next (hps : ∀ p ∈ ps, p.Plain) (hfirst : (loops ps).head? = some l)
    (hl : l.Plain) (h : c.Supplies l) {budget : Nat} (hbudget : budget ≤ loopBudget)
    (stack : List Combination) :
    c.expandStack template (budget + 1) (⟨spell ps, b⟩ :: stack) =
      if (c.valuesOf l).length ≤ budget then
        let items := (c.valuesOf l).map (assigned ps b l)
        (items.filter (!hasLoops ·.text) ++ ·) <$>
          c.expandStack template (budget - (c.valuesOf l).length)
            ((items.filter (hasLoops ·.text)).reverse ++ stack)
      else .error (.endless template) := by
  have hitems : (c.valuesOf l).mapM (assign ⟨spell ps, b⟩ l.token)
      = .ok ((c.valuesOf l).map (assigned ps b l)) :=
    mapM_eq_ok fun v hv => h.assign_eq hl hps hv
  have hf : Token.first? loopKind (Combination.mk (spell ps) b).text = some l.token := by
    rw [first?_spell hps, hfirst]
    rfl
  have hvalues : c.loopValues template budget l.token = if (c.valuesOf l).length ≤ budget
      then .ok (c.valuesOf l) else .error (.endless template) := h.loopValues_eq hl hbudget
  by_cases hle : (c.valuesOf l).length ≤ budget
  · rw [if_pos hle] at hvalues ⊢
    rw [expandStack_some stack hf hvalues hitems]
  · rw [if_neg hle] at hvalues ⊢
    rw [expandStack, hf]
    dsimp only
    rw [hvalues]
    rfl

/-- The cost of an item from that of the items it makes. -/
theorem expands_of_next {k : Nat} {results : List Combination} (hps : ∀ p ∈ ps, p.Plain)
    (hfirst : (loops ps).head? = some l) (hl : l.Plain) (h : c.Supplies l)
    (hnext : ∀ budget ≤ loopBudget, ∀ stack,
      (((c.valuesOf l).map (assigned ps b l)).filter (!hasLoops ·.text) ++ ·) <$>
        c.expandStack template budget
          ((((c.valuesOf l).map (assigned ps b l)).filter (hasLoops ·.text)).reverse ++ stack) =
      if (c.valuesOf l).length * k ≤ budget then
        (results ++ ·) <$> c.expandStack template (budget - (c.valuesOf l).length * k) stack
      else .error (.endless template)) :
    c.Expands template ⟨spell ps, b⟩ (1 + (c.valuesOf l).length * (1 + k)) results := by
  intro budget hbudget stack
  cases budget with
  | zero => rw [expandStack, if_neg (by omega)]
  | succ budget =>
    rw [expandStack_next hps hfirst hl h (by omega), Nat.mul_add, Nat.mul_one]
    by_cases hn : (c.valuesOf l).length ≤ budget
    · rw [if_pos hn]
      refine (hnext _ (by omega) stack).trans ?_
      by_cases hk : (c.valuesOf l).length * k ≤ budget - (c.valuesOf l).length
      · rw [if_pos hk, if_pos (by omega), Nat.add_comm 1, Nat.add_sub_add_right, Nat.sub_sub]
      · rw [if_neg hk, if_neg (by omega)]
    · rw [if_neg hn, if_neg (by omega)]

/-- The combinations of a text with several distinct loops, by the values of
the first. -/
theorem map_combine_choices (values : Loop → List Text) (ps : List Piece) (b : Bindings)
    (l l' : Loop) (ls : List Loop) :
    (choices values (l :: l' :: ls)).map (combine ps b) =
      (values l).reverse.flatMap fun v =>
        (choices values (l' :: ls)).map (combine (put l (l.shown v) ps) (b.insert l.name v)) := by
  rw [choices, List.map_flatMap]
  refine congrArg (List.flatMap · _) (funext fun v => ?_)
  rw [List.map_map]
  exact List.map_congr_left fun choice _ => combine_cons ps b l v choice

/-- A text with loops costs what its distinct loops cost and gives a
combination for each choice. -/
theorem expands_spell {ls : List Loop} (hps : ∀ p ∈ ps, p.Plain)
    (hsup : ∀ l ∈ loops ps, c.Supplies l) (hls : distinctLoops ps = l :: ls) :
    c.Expands template ⟨spell ps, b⟩
      (expansionCost ((l :: ls).map fun l => (c.valuesOf l).length))
      ((choices c.valuesOf (l :: ls)).map (combine ps b)) := by
  induction ls generalizing l ps b with
  | nil =>
    have hfirst := head?_loops_of_distinctLoops hls
    have hmem : l ∈ loops ps := List.mem_of_head? hfirst
    -- Every text that is made is finished.
    have hdone : ∀ item ∈ (c.valuesOf l).map (assigned ps b l), hasLoops item.text = false :=
      List.forall_mem_map.2 fun v hv => (hsup l hmem).hasLoops_assigned hps hls hv
    have hresults : (choices c.valuesOf [l]).map (combine ps b)
        = (c.valuesOf l).map (assigned ps b l) := by
      rw [choices, List.map_map]
      exact List.map_congr_left fun v _ => (combine_cons ps b l v []).trans (combine_nil _ _)
    refine expands_of_next hps hfirst (plain_of_mem_loops hps hmem) (hsup l hmem) ?_
    intro budget _ stack
    rw [List.filter_eq_self.2 fun item hitem => by rw [hdone item hitem]; rfl,
      List.filter_eq_nil_iff.2 fun item hitem => by rw [hdone item hitem]; decide, hresults]
    simp [expansionCost]
  | cons l' ls ih =>
    have hfirst := head?_loops_of_distinctLoops hls
    have hmem : l ∈ loops ps := List.mem_of_head? hfirst
    -- Every text that is made goes onto the stack, the last value on top.
    have hmore : ∀ item ∈ (c.valuesOf l).map (assigned ps b l), hasLoops item.text = true :=
      List.forall_mem_map.2 fun v hv => (hsup l hmem).hasLoops_assigned hps hls hv
    have hexp : ∀ v ∈ (c.valuesOf l).reverse, c.Expands template (assigned ps b l v)
        (expansionCost ((l' :: ls).map fun l => (c.valuesOf l).length))
        ((choices c.valuesOf (l' :: ls)).map
          (combine (put l (l.shown v) ps) (b.insert l.name v))) := by
      intro v hv
      have hshown := (hsup l hmem).notMem_shown (List.mem_reverse.1 hv)
      refine ih (plain_put hps hshown) (fun k hk => hsup k ?_) (distinctLoops_put hls _)
      rw [loops_put] at hk
      exact List.mem_of_mem_filter hk
    refine expands_of_next hps hfirst (plain_of_mem_loops hps hmem) (hsup l hmem) ?_
    intro budget hbudget stack
    rw [List.filter_eq_nil_iff.2 fun item hitem => by rw [hmore item hitem]; decide,
      List.filter_eq_self.2 hmore, map_combine_choices, ← List.map_reverse,
      expandStack_map hexp hbudget, List.length_reverse]
    simp

/-! ### A whole template -/

theorem expandLoops_spell (hps : ∀ p ∈ ps, p.Plain) (hsup : ∀ l ∈ loops ps, c.Supplies l)
    (hne : loops ps ≠ []) :
    c.expandLoops ⟨spell ps, []⟩ =
      if expansionCost ((distinctLoops ps).map fun l => (c.valuesOf l).length) ≤ loopBudget then
        .ok ((choices c.valuesOf (distinctLoops ps)).map (combine ps []))
      else .error (.endless (spell ps)) := by
  obtain ⟨l, ls, hls⟩ := List.exists_cons_of_ne_nil (distinctLoops_ne_nil hne)
  rw [expandLoops, expands_spell hps hsup hls loopBudget (Nat.le_refl _), hls]
  split
  · rw [expandStack]
    exact congrArg Except.ok (List.append_nil _)
  · rfl

/-- Substitution leaves a text without its forms as it is. -/
theorem substituteAll_of_none {inner : (name value : Text) → Traced Text} {t : Text}
    (hnone : ∀ form : Form, Token.first? form.kind t = none) :
    (c.substituteAll inner t).result = .ok ⟨t, []⟩ :=
  Traced.bind_eq_ok.2 ⟨_, untilStable_of_none fun form _ => hnone form,
    untilStable_of_none fun form _ => hnone form⟩

/-- Expanding is all that happens to a text of loops. -/
theorem result_resolveWith_of_none {inner : (name value : Text) → Traced Text} {t : Text}
    (hnone : ∀ form : Form, Token.first? form.kind t = none) (hloops : hasLoops t = true) :
    (c.resolveWith inner t).result =
      (c.expandLoops ⟨t, []⟩).map fun items =>
        if items.isEmpty then .single ⟨t, []⟩ else .expanded items := by
  rw [resolveWith, Traced.result_bind, Traced.result_bind, substituteAll_of_none hnone]
  show (if hasLoops t = true then _ else _ : Traced Resolved).result = _
  rw [if_pos hloops, Traced.result_bind]
  cases c.expandLoops ⟨t, []⟩ with
  | error e => rfl
  | ok items => cases items <;> rfl

theorem result_resolveWith_spell {inner : (name value : Text) → Traced Text}
    (hps : ∀ p ∈ ps, p.Plain) (hne : loops ps ≠ []) :
    (c.resolveWith inner (spell ps)).result =
      (c.expandLoops ⟨spell ps, []⟩).map fun items =>
        if items.isEmpty then .single ⟨spell ps, []⟩ else .expanded items := by
  refine result_resolveWith_of_none (first?_form_spell hps) ?_
  rw [hasLoops_spell hps, List.isEmpty_eq_false_iff.2 (distinctLoops_ne_nil hne)]
  rfl

/-- Within the budget there is a combination for each choice. -/
theorem result_resolve_spell (hps : ∀ p ∈ ps, p.Plain) (hsup : ∀ l ∈ loops ps, c.Supplies l)
    (hne : loops ps ≠ [])
    (hcost : expansionCost ((distinctLoops ps).map fun l => (c.valuesOf l).length) ≤ loopBudget)
    (hitems : choices c.valuesOf (distinctLoops ps) ≠ []) :
    (c.resolve (spell ps)).result =
      .ok (.expanded ((choices c.valuesOf (distinctLoops ps)).map (combine ps []))) := by
  obtain ⟨inner, hinner⟩ := c.exists_resolve_eq (spell ps)
  rw [hinner, result_resolveWith_spell hps hne, expandLoops_spell hps hsup hne, if_pos hcost]
  show Except.ok (if _ then _ else _) = _
  rw [if_neg (by simpa using hitems)]

end Context

end Wcl
