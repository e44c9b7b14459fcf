import Wcl.Proofs.Document.Names
import Wcl.Proofs.Template.Inner

/-!
# The variables that are being resolved

A value that is resolved by itself may ask for further ones, and the variables on
the way are remembered.  The log says when one is entered and left, so that the
names that are active behind every part of a run can be read off it
(`Log.active`).

Whatever is logged nests: the names that come on top of those at the start are
found, new and pairwise different, and at the end they are gone, also behind an
error (`Context.Nests`).  So no chain of names is longer than there are spellings,
and the depth that `resolveIn` counts plays no part (`resolveIn_eq_of_lt`):
`Context.resolveIn_ends`.
-/

namespace Wcl

/-- How an event changes the names that are active, the innermost first. -/
def Event.activeAfter (active : List Text) : Event → List Text
  | .entered name => name :: active
  | .left _ => active.tail
  | _ => active

/-- The names that are active behind a log. -/
def Log.active (log : Log) (before : List Text) : List Text := log.foldl Event.activeAfter before

theorem Log.active_append (log log' : Log) (before : List Text) :
    Log.active (log ++ log') before = Log.active log' (Log.active log before) :=
  List.foldl_append

theorem Log.active_of_messages {log : Log} (h : ∀ e ∈ log, ∃ level text, e = .message level text)
    (before : List Text) : Log.active log before = before := by
  induction log with
  | nil => rfl
  | cons e log ih =>
    obtain ⟨⟨level, text, rfl⟩, hlog⟩ := List.forall_mem_cons.1 h
    exact ih hlog

namespace Traced

variable {α β : Type} {template : Text}

theorem log_bind_ofExcept (x : Traced α) (f : α → Except Error β) :
    (x >>= fun a => ofExcept (f a)).log = x.log := by
  rw [log_bind]
  cases x.result <;> exact List.append_nil _

theorem compatible_eq : Compatible (fun x y => x = y) template template where
  quiet _ := rfl
  bind hxy hfg := by
    subst hxy
    exact bind_congr_of_ok hfg
  endless := rfl

end Traced

namespace Context

variable {c : Context} {active : List Text} {log log' : Log} {name template : Text}

/-! ### What is logged nests -/

/-- A variable with a scalar of its own. -/
def HasScalar (c : Context) (name : Text) : Prop :=
  ∃ value, c.document.find? c.scope name = some (.scalar value)

/-- Behind every part of a log there are names on top of the active ones, found,
new and pairwise different, and behind the whole of it there are none. -/
structure Nests (c : Context) (active : List Text) (log : Log) : Prop where
  restores : Log.active log active = active
  chain : ∀ k, ∃ chain, Log.active (log.take k) active = chain ++ active ∧ chain.Nodup ∧
    ∀ name ∈ chain, name ∉ active ∧ c.HasScalar name

namespace Nests

theorem of_messages (h : ∀ e ∈ log, ∃ level text, e = .message level text) :
    c.Nests active log where
  restores := Log.active_of_messages h active
  chain _ := ⟨[], Log.active_of_messages (fun e he => h e (List.mem_of_mem_take he)) active,
    List.nodup_nil, fun _ hn => absurd hn List.not_mem_nil⟩

theorem nil : c.Nests active [] := of_messages fun _ he => absurd he List.not_mem_nil

theorem append (h : c.Nests active log) (h' : c.Nests active log') :
    c.Nests active (log ++ log') where
  restores := by rw [Log.active_append, h.restores, h'.restores]
  chain k := by
    rw [List.take_append, Log.active_append]
    rcases Nat.le_total k log.length with hk | hk
    · rw [Nat.sub_eq_zero_of_le hk]
      exact h.chain k
    · rw [List.take_of_length_le hk, h.restores]
      exact h'.chain _

/-- A variable is entered and left around what nests inside. -/
theorem between (h : c.Nests (name :: active) log) (hnew : name ∉ active)
    (hfound : c.HasScalar name) :
    c.Nests active (.entered name :: log ++ [.left name]) where
  restores := by
    show Log.active (log ++ [Event.left name]) (name :: active) = active
    rw [Log.active_append, h.restores]
    rfl
  chain k := by
    cases k with
    | zero => exact nil.chain 0
    | succ k =>
      show ∃ chain, Log.active ((log ++ [Event.left name]).take k) (name :: active) = _ ∧ _
      rw [List.take_append, Log.active_append]
      rcases Nat.le_total k log.length with hk | hk
      · obtain ⟨chain, hchain, hnodup, hall⟩ := h.chain k
        refine ⟨chain ++ [name], ?_, ?_, ?_⟩
        · rw [Nat.sub_eq_zero_of_le hk, hchain, List.append_assoc]
          rfl
        · refine List.nodup_append.2 ⟨hnodup, List.nodup_singleton _, ?_⟩
          rintro n hn _ hname rfl
          exact (hall n hn).1 (List.mem_singleton.1 hname ▸ List.mem_cons_self ..)
        · intro n hn
          rcases List.mem_append.1 hn with hn | hn
          · exact ⟨fun hm => (hall n hn).1 (List.mem_cons_of_mem _ hm), (hall n hn).2⟩
          · obtain rfl := List.mem_singleton.1 hn
            exact ⟨hnew, hfound⟩
      · -- The variable may have been left already.
        rw [List.take_of_length_le hk, h.restores]
        cases k - log.length with
        | zero =>
          refine ⟨[name], rfl, List.nodup_singleton _, fun n hn => ?_⟩
          obtain rfl := List.mem_singleton.1 hn
          exact ⟨hnew, hfound⟩
        | succ k =>
          refine ⟨[], ?_, List.nodup_nil, fun _ hn => absurd hn List.not_mem_nil⟩
          rw [List.take_succ_cons, List.take_nil]
          rfl

/-- No more names can be active at once than there are spellings. -/
theorem length_le (h : c.Nests active log) {k : Nat} {chain : List Text}
    (hchain : Log.active (log.take k) active = chain ++ active) :
    chain.length ≤ c.spellings.ncard := by
  obtain ⟨chain', hsame, hnodup, hall⟩ := h.chain k
  obtain rfl := List.append_cancel_right (hchain.symm.trans hsame)
  have hsub : (chain.toFinset : Set Text) ⊆ c.spellings := by
    intro n hn
    obtain ⟨_, _, hfind⟩ := hall n (List.mem_toFinset.1 (Finset.mem_coe.1 hn))
    exact mem_spellings hfind
  have hle := Set.ncard_le_ncard hsub c.finite_spellings
  rwa [Set.ncard_coe_finset, List.toFinset_card_of_nodup hnodup] at hle

end Nests

theorem compatible_nests (c : Context) (active : List Text) (template : Text) :
    Traced.Compatible (fun x _ => c.Nests active x.log) template template where
  quiet h := .of_messages h
  bind {α β x y f g} hx hf := by
    rw [Traced.log_bind]
    refine hx.append ?_
    cases hresult : x.result with
    | ok a => exact hf a hresult
    | error e => exact .nil
  endless := .nil

/-- The log of a resolution nests, however deep it may go. -/
theorem nests_resolveIn (c : Context) (depth : Nat) (active : List Text) (template : Text) :
    c.Nests active (c.resolveIn depth active template).log := by
  induction depth generalizing active template with
  | zero => exact .nil
  | succ depth ih =>
    rw [resolveIn_succ]
    refine (c.compatible_nests active template).resolveWith_self fun name value hfind => ?_
    by_cases hname : name ∈ active
    · rw [valueIn_of_mem hname]
      exact .nil
    · rw [valueIn_of_notMem hname]
      refine Nests.between ?_ hname ⟨value, hfind⟩
      rw [Traced.log_bind_ofExcept]
      exact ih (name :: active) value

/-! ### The depth plays no part -/

/-- Entering a name leaves fewer to enter. -/
theorem ncard_unentered_lt (h : c.HasScalar name) (hnew : name ∉ active) :
    (c.spellings \ {n | n ∈ name :: active}).ncard < (c.spellings \ {n | n ∈ active}).ncard := by
  obtain ⟨value, hfind⟩ := h
  refine Set.ncard_lt_ncard ⟨?_, fun hsub => ?_⟩ c.finite_spellings.sdiff
  · exact Set.sdiff_subset_sdiff_right fun n hn => List.mem_cons_of_mem _ hn
  · have hmem : name ∈ c.spellings \ {n | n ∈ active} := ⟨mem_spellings hfind, hnew⟩
    exact (hsub hmem).2 (List.mem_cons_self ..)

/-- Where there are fewer names to enter than the depth allows, any such depth
does the same. -/
theorem resolveIn_eq_of_lt {depth depth' : Nat}
    (h : (c.spellings \ {n | n ∈ active}).ncard < depth)
    (h' : (c.spellings \ {n | n ∈ active}).ncard < depth') :
    c.resolveIn depth active template = c.resolveIn depth' active template := by
  induction depth generalizing depth' active template with
  | zero => exact absurd h (Nat.not_lt_zero _)
  | succ depth ih =>
    obtain ⟨depth', rfl⟩ := Nat.exists_eq_succ_of_ne_zero (Nat.ne_zero_of_lt h')
    rw [resolveIn_succ, Nat.succ_eq_add_one, resolveIn_succ]
    refine Traced.compatible_eq.resolveWith fun name value hfind => ?_
    by_cases hname : name ∈ active
    · rw [valueIn_of_mem hname, valueIn_of_mem hname]
    · have hlt := ncard_unentered_lt ⟨value, hfind⟩ hname
      have hsame : c.resolveIn depth (name :: active) value =
          c.resolveIn depth' (name :: active) value := ih (by omega) (by omega)
      rw [valueIn_of_notMem hname, valueIn_of_notMem hname, hsame]

theorem ncard_unentered_lt_depthBound (c : Context) (active : List Text) :
    (c.spellings \ {n | n ∈ active}).ncard < c.depthBound :=
  Nat.lt_of_le_of_lt (Set.ncard_le_ncard Set.sdiff_subset c.finite_spellings) c.ncard_spellings_lt

/-- **Resolving ends and leaves the active names as they were.**  The number of
spellings under which something can be found is below the bound on the depth.
At that bound the values of variables are resolved as by a recursion without any
bound, and so at every depth above the number of spellings.  On the way the names
on top of those at the start are new, pairwise different and found as scalars,
so that there are no more of them than spellings; a variable that is active
already is not entered but fails; and in the end, whatever the result is, the
names are those at the start. -/
theorem resolveIn_ends (c : Context) (active : List Text) (template : Text) :
    c.spellings.Finite ∧ c.spellings.ncard < c.depthBound ∧
    c.resolveIn c.depthBound active template =
      c.resolveWith (c.valueIn c.depthBound active template) template ∧
    (∀ depth, c.spellings.ncard < depth →
      c.resolveIn depth active template = c.resolveIn c.depthBound active template) ∧
    (∀ k, ∃ chain,
      Log.active ((c.resolveIn c.depthBound active template).log.take k) active = chain ++ active ∧
      chain.Nodup ∧ chain.length ≤ c.spellings.ncard ∧
      ∀ name ∈ chain, name ∈ c.spellings ∧ name ∉ active ∧ c.HasScalar name) ∧
    (∀ body width value,
      c.document.find? c.scope (Token.nameIn body) = some (.scalar value) →
      Text.isMultiValued value = false → Token.widthIn? body = some width →
      Token.nameIn body ∈ active →
      (c.variableValue? (c.valueIn c.depthBound active template) body).result =
        .error (.endless template)) ∧
    Log.active (c.resolveIn c.depthBound active template).log active = active := by
  have hnests := c.nests_resolveIn c.depthBound active template
  refine ⟨c.finite_spellings, c.ncard_spellings_lt, ?_, fun depth hdepth => ?_, fun k => ?_,
    fun body width value hfind hsingle hwidth hactive => ?_, hnests.restores⟩
  · rw [← resolveIn_succ]
    have hlt := c.ncard_unentered_lt_depthBound active
    exact resolveIn_eq_of_lt hlt (Nat.lt_succ_of_lt hlt)
  · refine resolveIn_eq_of_lt ?_ (c.ncard_unentered_lt_depthBound active)
    exact Nat.lt_of_le_of_lt (Set.ncard_le_ncard Set.sdiff_subset c.finite_spellings) hdepth
  · obtain ⟨chain, hchain, hnodup, hall⟩ := hnests.chain k
    refine ⟨chain, hchain, hnodup, hnests.length_le hchain, fun name hname => ?_⟩
    obtain ⟨hnew, value, hfind⟩ := hall name hname
    exact ⟨mem_spellings hfind, hnew, value, hfind⟩
  · rw [variableValue?, hfind]
    dsimp only
    rw [hsingle, hwidth, valueIn_of_mem hactive]
    rfl

/-- Two variables that need each other padded, in two letter cases. -/
theorem resolveIn_ends_circular :
    let c : Context :=
      ⟨.ofList [("a".toList, .scalar "$\x7bB:3\x7d".toList),
        ("b".toList, .scalar "$\x7ba:2\x7d".toList)], {}, false, none⟩
    let template := "$\x7ba:4\x7d".toList
    let log := (c.resolveIn c.depthBound ["x".toList] template).log
    Log.active (log.take 4) ["x".toList] = ["B".toList, "a".toList, "x".toList] ∧
      Log.active log ["x".toList] = ["x".toList] ∧
      (c.variableValue? (c.valueIn c.depthBound ["a".toList] template) "a:4".toList).result =
        .error (.endless template) ∧
      (c.resolveIn c.depthBound ["x".toList] template).result =
        .error (.endless "$\x7ba:2\x7d".toList) := by
  intro c template log
  obtain ⟨_, _, _, _, _, _, hrestores⟩ := c.resolveIn_ends ["x".toList] template
  obtain ⟨_, _, _, _, _, hactive, _⟩ := c.resolveIn_ends ["a".toList] template
  refine ⟨?_, hrestores, ?_, ?_⟩
  · rfl
  · exact hactive _ "4".toList "$\x7bB:3\x7d".toList rfl rfl rfl (List.mem_singleton_self _)
  · rfl

end Context

end Wcl
