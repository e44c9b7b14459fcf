import Wcl.Proofs.Template.Stages

/-!
# Only the limit can be in the way

Substitution fails at its limit and at a token for which nothing is put.  If in
every text on the way something is put for the token that is found
(`Context.Replaces`), the limit alone can be in the way of a stage
(`Context.Replaces.okOr_untilStable`).
-/

namespace Wcl

namespace Traced

variable {α β : Type} {e : Error} {P : α → Prop} {Q : β → Prop} {x : Traced α}

/-- The result is a good one, or this error. -/
def OkOr (e : Error) (P : α → Prop) (x : Traced α) : Prop :=
  (∃ a, x.result = .ok a ∧ P a) ∨ x.result = .error e

theorem OkOr.pure {a : α} (h : P a) : OkOr e P (pure a) := .inl ⟨a, rfl, h⟩

theorem OkOr.fail : OkOr e P (fail e) := .inr rfl

theorem bind_eq_error {f : α → Traced β} (h : x.result = .error e) :
    (x >>= f).result = .error e := by
  rw [result_bind, h]
  rfl

theorem OkOr.bind (h : OkOr e P x) {f : α → Traced β} (hf : ∀ a, P a → OkOr e Q (f a)) :
    OkOr e Q (x >>= f) := by
  rcases h with ⟨a, ha, hP⟩ | he
  · rcases hf a hP with ⟨b, hb, hQ⟩ | hfail
    · exact .inl ⟨b, bind_eq_ok.2 ⟨a, ha, hb⟩, hQ⟩
    · refine .inr ?_
      rw [result_bind, ha]
      exact hfail
  · exact .inr (bind_eq_error he)

end Traced

namespace Context

variable {c : Context} {inner : (name value : Text) → Traced Text} {template : Text} {form : Form}
  {forms : List Form} {item : Combination} {limit : Nat} {P : Text → Prop}

/-- In a text with a property something is put for the token of a form that is
found, and the text keeps the property. -/
def Replaces (c : Context) (inner : (name value : Text) → Traced Text) (P : Text → Prop)
    (form : Form) : Prop :=
  ∀ t token, Token.first? form.kind t = some token → P t →
    ∃ v, c.Puts inner form token v ∧ P (Text.replaceAll token.spelling v t)

namespace Replaces

theorem okOr_substitute (h : c.Replaces inner P form) (hP : P item.text) :
    Traced.OkOr (.endless template) (fun r => P r.1.text)
      (c.substitute inner template form limit item) := by
  induction limit generalizing item with
  | zero =>
    unfold substitute
    cases Token.first? form.kind item.text with
    | none => exact .pure hP
    | some token => exact .fail
  | succ limit ih =>
    unfold substitute
    cases hf : Token.first? form.kind item.text with
    | none => exact .pure hP
    | some token =>
      obtain ⟨v, hputs, hnext⟩ := h _ _ hf hP
      cases hputs with
      | @found new hrep =>
        refine Traced.OkOr.bind (P := fun new? => new? = some new) (.inl ⟨_, hrep, rfl⟩) ?_
        rintro _ rfl
        have hrest : P (item.substitute token new).text := hnext
        exact (ih hrest).bind fun r hr => .pure hr
      | missing hform hrep =>
        refine Traced.OkOr.bind (P := fun new? => new? = none) (.inl ⟨_, hrep, rfl⟩) ?_
        rintro _ rfl
        have hrequired : form ≠ .required := fun he => by cases hform.symm.trans he
        dsimp only
        rw [if_neg hrequired]
        exact ih hnext

theorem okOr_turn (h : ∀ form ∈ forms, c.Replaces inner P form) (hP : P item.text) :
    Traced.OkOr (.endless template) (fun r => P r.1.text)
      (c.turn inner template forms item) := by
  induction forms generalizing item with
  | nil => exact .pure hP
  | cons form forms ih =>
    obtain ⟨hform, hforms⟩ := List.forall_mem_cons.1 h
    exact (hform.okOr_substitute hP).bind fun r hr =>
      (ih hforms hr).bind fun r' hr' => .pure hr'

theorem okOr_untilStable (h : ∀ form ∈ forms, c.Replaces inner P form) (hP : P item.text) :
    Traced.OkOr (.endless template) (fun item' => P item'.text)
      (c.untilStable inner template forms limit item) := by
  induction limit generalizing item with
  | zero => exact .fail
  | succ limit ih =>
    refine (okOr_turn h hP).bind fun r hr => ?_
    obtain ⟨item', changed⟩ := r
    cases changed with
    | true => exact ih hr
    | false => exact .pure hr

end Replaces

end Context

end Wcl
