import Wcl.Proofs.Document.Scalars
import Wcl.Proofs.Template.References
import Wcl.Template.Context

/-!
# Evaluation of texts

What a text of references means: `Eval c n t s` says that `t` stands for `s` in
the context `c`, by a derivation that evaluates `n` references.  A reference
stands for whatever the value of its variable stands for, an optional one whose
variable is missing for nothing.

The other view is rewriting: `Rewrites c k t t'` says that `k` replacements
lead from `t` to `t'`, each of the leftmost token of a form and of all that are
spelled like it.  The meaning does not see a rewriting (`Rewrites.eval`), and
every replacement takes at least one reference out of the derivation
(`Rewrites.eval_of_eval`).
-/

namespace Wcl

/-- A text stands for another one, by evaluating so many references. -/
inductive Eval (c : Context) : Nat → Text → Text → Prop
  | nil : Eval c 0 [] []
  | char {ch : Char} {n : Nat} {t s : Text} (hch : ch ≠ '$') :
    Eval c n t s → Eval c n (ch :: t) (ch :: s)
  /-- A variable that is found stands for what its value stands for. -/
  | found {form : Form} {name spelling v : Text} {m n : Nat} {t s s' : Text} :
    IsReference form name spelling → c.document.find? c.scope name = some (.scalar v) →
      Eval c m v s → Eval c n t s' → Eval c (m + n + 1) (spelling ++ t) (s ++ s')
  /-- An optional variable that is missing stands for nothing. -/
  | missing {name spelling : Text} {n : Nat} {t s : Text} :
    IsReference .optional name spelling → c.document.find? c.scope name = none →
      Eval c n t s → Eval c (n + 1) (spelling ++ t) s

/-- What is put for a reference. -/
inductive Stands (c : Context) : Form → Text → Text → Prop
  | value {form : Form} {name v : Text} :
    c.document.find? c.scope name = some (.scalar v) → Stands c form name v
  | nothing {name : Text} : c.document.find? c.scope name = none → Stands c .optional name []

/-- Every scalar that a look-up finds is a text of references. -/
def Context.ReferencesInValues (c : Context) : Prop :=
  ∀ name v, c.document.find? c.scope name = some (.scalar v) → ReferencesOnly v

variable {c : Context} {form : Form} {name spelling : Text}

/-- It is enough to look at the scalars of the document and the scope. -/
theorem Context.referencesInValues_of_scalars
    (h : ∀ t ∈ c.document.entries.scalars ++ c.scope.scalars, ReferencesOnly t) :
    c.ReferencesInValues :=
  fun _ _ hfind => h _ (Document.find?_scalars hfind (List.mem_singleton_self _))

theorem Stands.unique {v v' : Text} (h : Stands c form name v) (h' : Stands c form name v') :
    v = v' := by
  cases h with
  | value hv =>
    cases h' with
    | value hv' =>
      rw [hv] at hv'
      cases hv'
      rfl
    | nothing hv' =>
      rw [hv] at hv'
      cases hv'
  | nothing hv =>
    cases h' with
    | value hv' =>
      rw [hv] at hv'
      cases hv'
    | nothing _ => rfl

theorem Stands.referencesOnly {v : Text} (h : Stands c form name v) (hc : c.ReferencesInValues) :
    ReferencesOnly v := by
  cases h with
  | value hv => exact hc _ _ hv
  | nothing _ => exact .nil

/-! ### Derivations -/

namespace Eval

variable {n : Nat} {t s : Text}

theorem nil_inv (h : Eval c n [] s) : n = 0 ∧ s = [] := by
  have hfront : ∀ {form name spelling t'}, IsReference form name spelling →
      spelling ++ t' ≠ [] :=
    fun hr he => hr.isSpelling.ne_nil (List.append_eq_nil_iff.1 he).1
  generalize hx : [] = x at h
  cases h with
  | nil => exact ⟨rfl, rfl⟩
  | char _ _ => cases hx
  | found hr _ _ _ => exact absurd hx.symm (hfront hr)
  | missing hr _ _ => exact absurd hx.symm (hfront hr)

/-- A reference stands for what stands for it. -/
theorem reference {v s' : Text} {m : Nat} (hr : IsReference form name spelling)
    (hv : Stands c form name v) (hm : Eval c m v s) (hn : Eval c n t s') :
    Eval c (m + n + 1) (spelling ++ t) (s ++ s') := by
  cases hv with
  | value hv => exact .found hr hv hm hn
  | nothing hv =>
    obtain ⟨rfl, rfl⟩ := hm.nil_inv
    rw [Nat.zero_add]
    exact .missing hr hv hn

theorem char_inv {ch : Char} (hch : ch ≠ '$') (h : Eval c n (ch :: t) s) :
    ∃ s', s = ch :: s' ∧ Eval c n t s' := by
  have hfront : ∀ {form name spelling t'}, IsReference form name spelling →
      spelling ++ t' ≠ ch :: t := by
    intro form name spelling t' hr he
    obtain ⟨r, rfl, _⟩ := hr.isSpelling.exists_cons
    exact hch (List.cons.inj he).1.symm
  generalize hx : ch :: t = x at h
  cases h with
  | nil => cases hx
  | char _ h =>
    cases hx
    exact ⟨_, rfl, h⟩
  | found hr _ _ _ => exact absurd hx.symm (hfront hr)
  | missing hr _ _ => exact absurd hx.symm (hfront hr)

theorem reference_inv (hr : IsReference form name spelling) (h : Eval c n (spelling ++ t) s) :
    ∃ v m k s' s'', Stands c form name v ∧ Eval c m v s' ∧ Eval c k t s'' ∧ n = m + k + 1 ∧
      s = s' ++ s'' := by
  have hsame : ∀ {form' name' spelling' t'}, IsReference form' name' spelling' →
      spelling ++ t = spelling' ++ t' → form = form' ∧ name = name' ∧ t = t' := by
    intro form' name' spelling' t' hr' he
    obtain ⟨rfl, rfl⟩ := hr.isSpelling.append_inj hr'.isSpelling he
    exact ⟨(hr.unique hr').1, (hr.unique hr').2, rfl⟩
  generalize hx : spelling ++ t = x at h
  cases h with
  | nil => exact absurd (List.append_eq_nil_iff.1 hx).1 hr.isSpelling.ne_nil
  | char hch _ =>
    obtain ⟨r, rfl, _⟩ := hr.isSpelling.exists_cons
    exact absurd (List.cons.inj hx).1.symm hch
  | found hr' hv hm hn =>
    obtain ⟨rfl, rfl, rfl⟩ := hsame hr' hx
    exact ⟨_, _, _, _, _, .value hv, hm, hn, rfl, rfl⟩
  | missing hr' hv hn =>
    obtain ⟨rfl, rfl, rfl⟩ := hsame hr' hx
    exact ⟨_, _, _, _, _, .nothing hv, .nil, hn, by rw [Nat.zero_add], rfl⟩

theorem append {m : Nat} {t' s' : Text} (h : Eval c n t s) (h' : Eval c m t' s') :
    Eval c (n + m) (t ++ t') (s ++ s') := by
  induction h with
  | nil => simpa using h'
  | char hch _ ih => exact .char hch ih
  | found hr hv hk _ _ ih =>
    rw [List.append_assoc, List.append_assoc, Nat.add_right_comm, Nat.add_assoc _ _ m]
    exact .found hr hv hk ih
  | missing hr hv _ ih =>
    rw [List.append_assoc, Nat.add_right_comm]
    exact .missing hr hv ih

/-- What two texts together stand for is in two parts. -/
theorem split {t' : Text} (ht : ReferencesOnly t) (h : Eval c n (t ++ t') s) :
    ∃ m k s' s'', Eval c m t s' ∧ Eval c k t' s'' ∧ s = s' ++ s'' := by
  induction t, ht using ReferencesOnly.induction generalizing n s with
  | nil => exact ⟨0, n, [], s, .nil, h, rfl⟩
  | char ch t hch _ ih =>
    obtain ⟨s, rfl, hrest⟩ := h.char_inv hch
    obtain ⟨m, k, s', s'', hm, hk, rfl⟩ := ih hrest
    exact ⟨m, k, ch :: s', s'', .char hch hm, hk, rfl⟩
  | reference form name spelling t hr _ ih =>
    rw [List.append_assoc] at h
    obtain ⟨v, j, _, sv, s, hv, hj, hrest, _, rfl⟩ := h.reference_inv hr
    obtain ⟨m, k, s', s'', hm, hk, rfl⟩ := ih hrest
    exact ⟨j + m + 1, k, sv ++ s', s'', .reference hr hv hj hm, hk, by rw [List.append_assoc]⟩

theorem of_notMem (ht : '$' ∉ t) : Eval c 0 t t := by
  induction t with
  | nil => exact .nil
  | cons ch t ih =>
    obtain ⟨hch, ht⟩ := not_or.1 (mt List.mem_cons.2 ht)
    exact .char (Ne.symm hch) (ih ht)

theorem eq_of_notMem (ht : '$' ∉ t) (h : Eval c n t s) : s = t := by
  induction t generalizing s with
  | nil => exact h.nil_inv.2
  | cons ch t ih =>
    obtain ⟨hch, ht⟩ := not_or.1 (mt List.mem_cons.2 ht)
    obtain ⟨s, rfl, hrest⟩ := h.char_inv (Ne.symm hch)
    rw [ih ht hrest]

/-! ### Replacing a reference -/

variable {v : Text}

/-- What a text stands for after a replacement it has stood for before. -/
theorem of_replaceAll (hc : c.ReferencesInValues) (hr : IsReference form name spelling)
    (hv : Stands c form name v) (ht : ReferencesOnly t)
    (h : Eval c n (Text.replaceAll spelling v t) s) : ∃ m, Eval c m t s := by
  induction t, ht using ReferencesOnly.induction generalizing n s with
  | nil => exact ⟨n, h⟩
  | char ch t hch _ ih =>
    rw [Text.replaceAll_cons_of_ne hr.isSpelling hch] at h
    obtain ⟨s, rfl, hrest⟩ := h.char_inv hch
    obtain ⟨m, hm⟩ := ih hrest
    exact ⟨m, .char hch hm⟩
  | reference form' name' spelling' t hr' _ ih =>
    by_cases he : spelling = spelling'
    · subst he
      obtain ⟨rfl, rfl⟩ := hr.unique hr'
      rw [Text.replaceAll_append hr.isSpelling.ne_nil] at h
      obtain ⟨k, _, s', s'', hk, hrest, rfl⟩ := h.split (hv.referencesOnly hc)
      obtain ⟨m, hm⟩ := ih hrest
      exact ⟨k + m + 1, .reference hr hv hk hm⟩
    · rw [Text.replaceAll_of_ne hr.isSpelling hr'.isSpelling he] at h
      obtain ⟨v', k, _, s', s'', hv', hk, hrest, _, rfl⟩ := h.reference_inv hr'
      obtain ⟨m, hm⟩ := ih hrest
      exact ⟨k + m + 1, .reference hr' hv' hk hm⟩

/-- A replacement leaves what a text stands for and costs no evaluation; where
there is something to replace it saves one. -/
theorem replaceAll (hr : IsReference form name spelling) (hv : Stands c form name v)
    (ht : ReferencesOnly t) (h : Eval c n t s) :
    ∃ m, Eval c m (Text.replaceAll spelling v t) s ∧ m ≤ n ∧
      (Token.first? form.kind t = some ⟨spelling, name⟩ → m < n) := by
  induction t, ht using ReferencesOnly.induction generalizing n s with
  | nil => exact ⟨n, h, Nat.le_refl n, nofun⟩
  | char ch t hch _ ih =>
    obtain ⟨s, rfl, hrest⟩ := h.char_inv hch
    obtain ⟨m, hm, hle, hlt⟩ := ih hrest
    rw [Text.replaceAll_cons_of_ne hr.isSpelling hch]
    refine ⟨m, .char hch hm, hle, fun hf => hlt ?_⟩
    rwa [Token.first?_cons_of_ne form.head?_opener hch] at hf
  | reference form' name' spelling' t hr' _ ih =>
    obtain ⟨v', k, j, s', s'', hv', hk, hrest, rfl, rfl⟩ := h.reference_inv hr'
    obtain ⟨m, hm, hle, hlt⟩ := ih hrest
    by_cases he : spelling = spelling'
    · subst he
      obtain ⟨rfl, rfl⟩ := hr.unique hr'
      obtain rfl := hv.unique hv'
      rw [Text.replaceAll_append hr.isSpelling.ne_nil]
      exact ⟨k + m, hk.append hm, by omega, fun _ => by omega⟩
    · rw [Text.replaceAll_of_ne hr.isSpelling hr'.isSpelling he]
      refine ⟨k + m + 1, .reference hr' hv' hk hm, by omega, fun hf => ?_⟩
      by_cases hform : form = form'
      · subst hform
        rw [hr'.first?_eq] at hf
        exact absurd (congrArg Token.spelling (Option.some.inj hf)).symm he
      · rw [hr'.first?_of_ne hform] at hf
        have hlt' := hlt hf
        omega

/-- In a text that stands for something every token has a value. -/
theorem exists_stands (ht : ReferencesOnly t) (h : Eval c n t s) {token : Token}
    (hf : Token.first? form.kind t = some token) : ∃ v, Stands c form token.body v := by
  induction t, ht using ReferencesOnly.induction generalizing n s with
  | nil => cases hf
  | char ch t hch _ ih =>
    obtain ⟨s, rfl, hrest⟩ := h.char_inv hch
    rw [Token.first?_cons_of_ne form.head?_opener hch] at hf
    exact ih hrest hf
  | reference form' name spelling t hr _ ih =>
    obtain ⟨v, _, _, _, _, hv, _, hrest, _, _⟩ := h.reference_inv hr
    by_cases hform : form = form'
    · subst hform
      rw [hr.first?_eq] at hf
      cases hf
      exact ⟨v, hv⟩
    · rw [hr.first?_of_ne hform] at hf
      exact ih hrest hf

end Eval

/-! ### Rewriting -/

/-- A text becomes another one by so many replacements, each of the leftmost
token of a form by what stands for it. -/
inductive Rewrites (c : Context) : Nat → Text → Text → Prop
  | refl {t : Text} : Rewrites c 0 t t
  | step {form : Form} {token : Token} {v t t' : Text} {k : Nat} :
    Token.first? form.kind t = some token → Stands c form token.body v →
      Rewrites c k (Text.replaceAll token.spelling v t) t' → Rewrites c (k + 1) t t'

namespace Rewrites

variable {k : Nat} {t t' s : Text}

theorem trans {j : Nat} {t'' : Text} (h : Rewrites c k t t') (h' : Rewrites c j t' t'') :
    Rewrites c (k + j) t t'' := by
  induction h with
  | refl => rwa [Nat.zero_add]
  | step hf hv _ ih =>
    rw [Nat.add_right_comm]
    exact .step hf hv (ih h')

theorem referencesOnly (hc : c.ReferencesInValues) (ht : ReferencesOnly t) (h : Rewrites c k t t') :
    ReferencesOnly t' := by
  induction h with
  | refl => exact ht
  | step hf hv _ ih =>
    have hr := ht.isReference_of_first? hf
    exact ih (ht.replaceAll hr.isSpelling (hv.referencesOnly hc))

/-- What a rewritten text stands for the text stands for. -/
theorem eval (hc : c.ReferencesInValues) (ht : ReferencesOnly t) (h : Rewrites c k t t') {n : Nat}
    (hs : Eval c n t' s) : ∃ m, Eval c m t s := by
  induction h generalizing n with
  | refl => exact ⟨n, hs⟩
  | step hf hv _ ih =>
    have hr := ht.isReference_of_first? hf
    obtain ⟨m, hm⟩ := ih (ht.replaceAll hr.isSpelling (hv.referencesOnly hc)) hs
    exact hm.of_replaceAll hc hr hv ht

/-- Every replacement saves at least one evaluation. -/
theorem eval_of_eval (hc : c.ReferencesInValues) (ht : ReferencesOnly t) (h : Rewrites c k t t')
    {n : Nat} (hs : Eval c n t s) : ∃ m, Eval c m t' s ∧ m + k ≤ n := by
  induction h generalizing n with
  | refl => exact ⟨n, hs, Nat.le_refl n⟩
  | step hf hv _ ih =>
    have hr := ht.isReference_of_first? hf
    obtain ⟨j, hj, _, hlt⟩ := hs.replaceAll hr hv ht
    obtain ⟨m, hm, hle⟩ := ih (ht.replaceAll hr.isSpelling (hv.referencesOnly hc)) hj
    have hlt := hlt hf
    exact ⟨m, hm, by omega⟩

end Rewrites

end Wcl
