import Wcl.Proofs.Template.Substitution

/-!
# Values that are resolved by themselves

Resolving a template asks for values by themselves, those of variables with a
width, and what it does with them is all that it depends on.  A relation between
computations that goes through binds and holds of the messages on the way
(`Traced.Compatible`) holds of two resolutions as soon as it holds of the values
that they ask for: `Traced.Compatible.resolveWith`.

`Context.valueIn` is what `resolveIn` asks for.
-/

namespace Wcl

namespace Traced

variable {α β : Type}

/-- Nothing but messages on the way. -/
def Quiet (x : Traced α) : Prop := ∀ e ∈ x.log, ∃ level text, e = .message level text

namespace Quiet

theorem pure (a : α) : Quiet (pure a) := fun _ he => absurd he List.not_mem_nil

theorem fail (e : Error) : Quiet (fail e : Traced α) := fun _ he => absurd he List.not_mem_nil

theorem ofExcept (r : Except Error α) : Quiet (ofExcept r) :=
  fun _ he => absurd he List.not_mem_nil

theorem debug (text : Text) : Quiet (debug text) := by
  intro e he
  obtain rfl := List.mem_singleton.1 he
  exact ⟨_, _, rfl⟩

theorem bind {x : Traced α} {f : α → Traced β} (hx : Quiet x)
    (hf : ∀ a, x.result = .ok a → Quiet (f a)) : Quiet (x >>= f) := by
  intro e he
  rw [log_bind] at he
  rcases List.mem_append.1 he with he | he
  · exact hx e he
  · cases hresult : x.result with
    | ok a =>
      rw [hresult] at he
      exact hf a hresult e he
    | error _ =>
      rw [hresult] at he
      exact absurd he List.not_mem_nil

end Quiet

/-- A relation between computations that goes on through binds.  It holds of a
computation with nothing but messages and itself, and where two templates do not
come to an end. -/
structure Compatible (R : ∀ {α : Type}, Traced α → Traced α → Prop)
    (template template' : Text) : Prop where
  quiet : ∀ {α : Type} {x : Traced α}, Quiet x → R x x
  bind : ∀ {α β : Type} {x y : Traced α} {f g : α → Traced β}, R x y →
    (∀ a, x.result = .ok a → R (f a) (g a)) → R (x >>= f) (y >>= g)
  endless : ∀ {α : Type}, R (fail (.endless template) : Traced α) (fail (.endless template'))

end Traced

namespace Context

/-! ### What is asked for -/

/-- The value of a variable by itself, for a template that is resolved while the
values of `active` are. -/
def valueIn (c : Context) (depth : Nat) (active : List Text) (template name value : Text) :
    Traced Text :=
  if active.contains name then .fail (.endless template)
  else .between (.entered name) (.left name) do
    let resolved ← c.resolveIn depth (name :: active) value
    .ofExcept (resolved.only value)

section

variable {c : Context} {depth : Nat} {active : List Text} {template name value : Text}

theorem valueIn_of_mem (h : name ∈ active) :
    c.valueIn depth active template name value = .fail (.endless template) :=
  if_pos (List.contains_iff_mem.2 h)

theorem valueIn_of_notMem (h : name ∉ active) :
    c.valueIn depth active template name value =
      .between (.entered name) (.left name)
        (c.resolveIn depth (name :: active) value >>= fun r => .ofExcept (r.only value)) :=
  if_neg (mt List.contains_iff_mem.1 h)

end

/-- While nothing else is resolved it does not matter which template asks. -/
theorem valueIn_nil_congr (template template' : Text) {c : Context} {depth : Nat} :
    c.valueIn depth [] template = c.valueIn depth [] template' := by
  funext name value
  rw [valueIn_of_notMem List.not_mem_nil, valueIn_of_notMem List.not_mem_nil]

theorem resolveIn_succ (c : Context) (depth : Nat) (active : List Text) (template : Text) :
    c.resolveIn (depth + 1) active template =
      c.resolveWith (c.valueIn depth active template) template := by
  rw [resolveIn]
  congr 1
  funext name value
  split
  · next h => exact (valueIn_of_mem h).symm
  · next h => exact (valueIn_of_notMem h).symm

theorem depthBound_pos (c : Context) : 0 < c.depthBound := Nat.pow_pos (by decide)

theorem resolve_eq (c : Context) (template : Text) :
    c.resolve template = c.resolveWith (c.valueIn (c.depthBound - 1) [] template) template := by
  rw [← resolveIn_succ, Nat.sub_add_cancel c.depthBound_pos]
  rfl

theorem quiet_function (c : Context) (body : Text) : (c.function body).Quiet := by
  unfold function
  split
  · exact .fail _
  · split
    · exact .fail _
    · unfold Registry.call
      split
      · exact .fail _
      · exact .bind (.debug _) fun _ _ => .ofExcept _

end Context

/-! ### What a resolution does with it -/

namespace Traced.Compatible

variable {R : ∀ {α : Type}, Traced α → Traced α → Prop} {c : Context}
  {inner inner' : (name value : Text) → Traced Text} {template template' body : Text}
  {form : Form} {forms : List Form} {item : Combination} {limit : Nat}

section Substitution

variable (h : Compatible R template template')
  (hinner : ∀ name value, c.document.find? c.scope name = some (.scalar value) →
    R (inner name value) (inner' name value))

include h hinner

theorem variableValue? : R (c.variableValue? inner body) (c.variableValue? inner' body) := by
  unfold Context.variableValue?
  dsimp only
  cases hfind : c.document.find? c.scope (Token.nameIn body) with
  | none => exact h.quiet (.pure _)
  | some found =>
    cases found with
    | nested d => exact h.quiet (.fail _)
    | scalar value =>
      dsimp only
      by_cases hmulti : Text.isMultiValued value = true
      · rw [if_pos hmulti, if_pos hmulti]
        exact h.quiet (.pure _)
      · rw [if_neg hmulti, if_neg hmulti]
        cases Token.widthIn? body with
        | none => exact h.quiet (.pure _)
        | some width =>
          refine h.bind (hinner _ value hfind) fun number _ => h.quiet ?_
          split
          · exact .pure _
          · exact .fail _

theorem replacement? : R (c.replacement? inner form body) (c.replacement? inner' form body) := by
  cases form with
  | header => exact h.quiet (.bind (.ofExcept _) fun _ _ => .pure _)
  | function => exact h.quiet (.bind (c.quiet_function body) fun _ _ => .pure _)
  | optional => exact h.variableValue? hinner
  | required => exact h.variableValue? hinner

theorem substitute :
    R (c.substitute inner template form limit item)
      (c.substitute inner' template' form limit item) := by
  induction limit generalizing item with
  | zero =>
    unfold Context.substitute
    cases Token.first? form.kind item.text with
    | none => exact h.quiet (.pure _)
    | some token => exact h.endless
  | succ limit ih =>
    unfold Context.substitute
    cases Token.first? form.kind item.text with
    | none => exact h.quiet (.pure _)
    | some token =>
      refine h.bind (h.replacement? hinner) fun new? _ => ?_
      cases new? with
      | some new => exact h.bind ih fun _ _ => h.quiet (.pure _)
      | none =>
        dsimp only
        by_cases hform : form = .required
        · rw [if_pos hform, if_pos hform]
          exact h.quiet (.fail _)
        · rw [if_neg hform, if_neg hform]
          exact ih

theorem turn :
    R (c.turn inner template forms item) (c.turn inner' template' forms item) := by
  induction forms generalizing item with
  | nil => exact h.quiet (.pure _)
  | cons form forms ih =>
    exact h.bind (h.substitute hinner) fun _ _ => h.bind ih fun _ _ => h.quiet (.pure _)

theorem untilStable :
    R (c.untilStable inner template forms limit item)
      (c.untilStable inner' template' forms limit item) := by
  induction limit generalizing item with
  | zero => exact h.endless
  | succ limit ih =>
    refine h.bind (h.turn hinner) fun r _ => ?_
    obtain ⟨item', changed⟩ := r
    cases changed with
    | true => exact ih
    | false => exact h.quiet (.pure _)

end Substitution

/-- What holds of the values by themselves holds of the resolution of a template
with them. -/
theorem resolveWith (h : Compatible R template template)
    (hinner : ∀ name value, c.document.find? c.scope name = some (.scalar value) →
      R (inner name value) (inner' name value)) :
    R (c.resolveWith inner template) (c.resolveWith inner' template) := by
  refine h.bind (h.quiet (.debug _)) fun _ _ => ?_
  refine h.bind ?_ fun item _ => h.quiet ?_
  · exact h.bind (h.untilStable hinner) fun _ _ => h.untilStable hinner
  · split
    · refine .bind (.ofExcept _) fun items _ => ?_
      split
      · exact .bind (.debug _) fun _ _ => .pure _
      · exact .bind (.debug _) fun _ _ => .pure _
    · exact .pure _

/-- One computation is enough where a relation speaks of one. -/
theorem resolveWith_self (h : Compatible R template template)
    (hinner : ∀ name value, c.document.find? c.scope name = some (.scalar value) →
      R (inner name value) (inner name value)) :
    R (c.resolveWith inner template) (c.resolveWith inner template) :=
  h.resolveWith hinner

end Traced.Compatible

end Wcl
