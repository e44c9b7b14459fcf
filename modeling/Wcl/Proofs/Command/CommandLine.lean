import Mathlib.Data.List.Forall2
import Mathlib.Data.List.Permutation
import Wcl.Proofs.Command.Placing

/-!
# What a command line is made of

The section of a command resolves to an `Invocation`: the program, and the
entries of its section `cmdline` with their values.  The words of the command
line are the words of units in which the program and the options stand in their
order, and every positional value once (`commandLine_layout`).

Which of them comes first, and in which order the positional values are, depends
on the positions that the values ask for.  The program is the first word if no
value asks for position 0 (`commandLine_program`), and the values are in the
order of their positions if no two of them ask for one position, or if there is
room for all but the last of those that do (`commandLine_order`).
-/

namespace Wcl

/-! ### The units of a layout -/

theorem putAt_eq (units : List (List Text)) (p : Nat × Text) :
    putAt units p = units.take p.1 ++ [p.2] :: units.drop p.1 := by
  obtain ⟨n, t⟩ := p
  change units.insertIdx (min n units.length) [t] = units.take n ++ [t] :: units.drop n
  induction units generalizing n with
  | nil =>
    rw [List.length_nil, Nat.min_zero, List.take_nil, List.drop_nil]
    rfl
  | cons u units ih =>
    cases n with
    | zero => rw [Nat.zero_min]; rfl
    | succ n =>
      rw [List.length_cons, Nat.succ_min_succ, List.insertIdx_succ_cons, ih]
      rfl

theorem foldl_putAt (units : List Placed) (ps : List (Nat × Text)) :
    ps.foldl putAt (units.map Placed.words) = (Placed.putAll units ps).map Placed.words := by
  induction ps generalizing units with
  | nil => rfl
  | cons p ps ih =>
    have hput : putAt (units.map Placed.words) p = (Placed.put units p).map Placed.words := by
      rw [putAt_eq, Placed.put, List.map_append, List.map_cons, List.map_take, List.map_drop]
      rfl
    rw [List.foldl_cons, hput, ih]
    rfl

namespace Layout

/-- The positional values in the order in which they are put in. -/
def queue (layout : Layout) : List (Nat × Text) :=
  layout.positionals.mergeSort fun a b => a.1 ≤ b.1

/-- The units behind a program, each with what it is. -/
def placed (layout : Layout) (program : Text) : List Placed :=
  Placed.putAll (([program] :: layout.units).map .own) layout.queue

theorem words_eq (layout : Layout) (program : Text) :
    layout.words program = (layout.placed program).flatMap Placed.words := by
  have hown : (([program] :: layout.units).map Placed.own).map Placed.words =
      [program] :: layout.units := by
    rw [List.map_map]
    exact List.map_id _
  rw [placed, List.flatMap_def, ← foldl_putAt, hown]
  rfl

theorem queue_perm (layout : Layout) : layout.queue.Perm layout.positionals :=
  List.mergeSort_perm _ _

/-- The order that the values are sorted by, of their positions. -/
theorem position_trans (a b c : Nat × Text) (hab : decide (a.1 ≤ b.1) = true)
    (hbc : decide (b.1 ≤ c.1) = true) : decide (a.1 ≤ c.1) = true := by
  rw [decide_eq_true_eq] at hab hbc ⊢
  exact Nat.le_trans hab hbc

theorem position_total (a b : Nat × Text) :
    (decide (a.1 ≤ b.1) || decide (b.1 ≤ a.1)) = true := by
  rw [Bool.or_eq_true, decide_eq_true_eq, decide_eq_true_eq]
  exact Nat.le_total a.1 b.1

theorem pairwise_queue (layout : Layout) : layout.queue.Pairwise fun a b => a.1 ≤ b.1 := by
  have hsorted : layout.queue.Pairwise fun a b => decide (a.1 ≤ b.1) = true :=
    List.pairwise_mergeSort position_trans position_total layout.positionals
  exact hsorted.imp of_decide_eq_true

/-- Values that ask for one position stay in the order of the document. -/
theorem filter_queue (layout : Layout) (n : Nat) :
    (layout.queue.filter fun a => a.1 = n) = layout.positionals.filter fun a => a.1 = n := by
  have hequal : (layout.positionals.filter fun a => a.1 = n).Pairwise
      fun a b => decide (a.1 ≤ b.1) = true := by
    refine List.pairwise_of_forall_mem_list fun a ha b hb => ?_
    have ha' := of_decide_eq_true (List.mem_filter.1 ha).2
    have hb' := of_decide_eq_true (List.mem_filter.1 hb).2
    exact decide_eq_true (Nat.le_of_eq (ha'.trans hb'.symm))
  have hsub : (layout.positionals.filter fun a => a.1 = n).Sublist layout.queue :=
    List.sublist_mergeSort position_trans position_total hequal List.filter_sublist
  have hfilter := hsub.filter fun a => decide (a.1 = n)
  rw [List.filter_filter] at hfilter
  simp only [Bool.and_self] at hfilter
  exact (hfilter.eq_of_length (layout.queue_perm.filter _).length_eq.symm).symm

end Layout

/-! ### What the section of a command says -/

/-- The unit of an option: its name behind hyphens, and its value unless it is a
flag. -/
def HyphenStyle.optionUnit (style : HyphenStyle) (entry : Text × Text) : List Text :=
  let option := style.hyphens entry.1 ++ entry.1
  if entry.2 = flagValue then [option] else [option, entry.2]

/-- What the section of a command resolves to: the program, and the entries of
`cmdline` with their resolved values, in order. -/
@[ext]
structure Invocation where
  program : Text
  style : HyphenStyle
  entries : List (Text × Text)

namespace Invocation

/-- The units of the options. -/
def options (i : Invocation) : List (List Text) :=
  (i.entries.filter fun entry => entry.1.head? ≠ some '_').map i.style.optionUnit

/-- The units that are no positional values: the program and the options. -/
def baseUnits (i : Invocation) : List (List Text) := [i.program] :: i.options

/-- The positional values with their positions. -/
def positionals (i : Invocation) : List (Nat × Text) :=
  i.entries.filterMap fun entry => (position? entry.1).map (·, entry.2)

/-- The layout of the entries. -/
def layout (i : Invocation) : Layout := ⟨i.options, i.positionals⟩

end Invocation

/-- The style that the section of a command asks for. -/
def Document.hyphenStyle (command : Document) : Except Error HyphenStyle :=
  match command.text? "cmd_hyphen".toList with
  | none => .ok .single
  | some name => HyphenStyle.named name

namespace Context

variable {c : Context} {exec : Text} {cmd : CommandLine}

/-- A scalar and its resolved value, under the same key. -/
def ResolvesTo (c : Context) (entry : Text × Value) (resolved : Text × Text) : Prop :=
  resolved.1 = entry.1 ∧
    ∃ raw, entry.2 = .scalar raw ∧ (c.resolveSingle raw).result = .ok resolved.2

/-- The section of a command resolves to an invocation: its name, each entry of
`cmdline`, and the position of each entry whose key begins like one. -/
structure Invokes (c : Context) (command : Document) (i : Invocation) : Prop where
  program : ∃ name, command.text? "execname".toList = some name ∧
    (c.resolveSingle name).result = .ok i.program
  entries : match command.section? "cmdline".toList with
    | none => i.style = .single ∧ i.entries = []
    | some cmdline =>
      command.hyphenStyle = .ok i.style ∧ List.Forall₂ c.ResolvesTo cmdline.toList i.entries
  positions : ∀ entry ∈ i.entries, entry.1.head? = some '_' → position? entry.1 ≠ none

theorem rightUnique_resolvesTo (c : Context) : Relator.RightUnique c.ResolvesTo := by
  rintro entry resolved resolved' ⟨hkey, raw, hraw, hvalue⟩ ⟨hkey', raw', hraw', hvalue'⟩
  rw [hraw] at hraw'
  cases hraw'
  rw [hvalue] at hvalue'
  exact Prod.ext (hkey.trans hkey'.symm) (Except.ok.inj hvalue')

/-- A section resolves to one invocation at most. -/
theorem Invokes.unique {command : Document} {i i' : Invocation} (h : c.Invokes command i)
    (h' : c.Invokes command i') : i = i' := by
  obtain ⟨name, hname, hprogram⟩ := h.program
  obtain ⟨name', hname', hprogram'⟩ := h'.program
  rw [hname] at hname'
  cases hname'
  have hentries := h.entries
  have hentries' := h'.entries
  obtain ⟨hstyle, hsame⟩ : i.style = i'.style ∧ i.entries = i'.entries := by
    split at hentries
    · next hnone =>
      rw [hnone] at hentries'
      exact ⟨hentries.1.trans hentries'.1.symm, hentries.2.trans hentries'.2.symm⟩
    · next cmdline hsome =>
      rw [hsome] at hentries'
      exact ⟨Except.ok.inj (hentries.1.symm.trans hentries'.1),
        c.rightUnique_resolvesTo.forall₂ hentries.2 hentries'.2⟩
  exact Invocation.ext (Except.ok.inj (hprogram.symm.trans hprogram')) hstyle hsame

theorem commandLine_eq_ok : (c.commandLine exec).result = .ok cmd ↔
    ∃ command name program layout, c.document.section? exec = some command ∧
      command.text? "execname".toList = some name ∧
      (c.resolveSingle name).result = .ok program ∧
      (c.execLayout exec command).result = .ok layout ∧
      cmd = ⟨exec, layout.words program⟩ := by
  rw [commandLine]
  constructor
  · intro h
    split at h
    · cases h
    · next command hcommand =>
      split at h
      · cases h
      · next name hname =>
        obtain ⟨program, hprogram, h⟩ := Traced.bind_eq_ok.1 h
        obtain ⟨layout, hlayout, h⟩ := Traced.bind_eq_ok.1 h
        cases h
        exact ⟨command, name, program, layout, hcommand, hname, hprogram, hlayout, rfl⟩
  · rintro ⟨command, name, program, layout, hcommand, hname, hprogram, hlayout, rfl⟩
    simp only [hcommand, hname]
    refine Traced.bind_eq_ok.2 ⟨program, hprogram, Traced.bind_eq_ok.2 ⟨layout, hlayout, ?_⟩⟩
    exact Traced.bind_eq_ok.2 ⟨(), rfl, rfl⟩

theorem position?_eq_none {key : Text} (h : key.head? ≠ some '_') : position? key = none := by
  cases key with
  | nil => rfl
  | cons ch r =>
    rw [position?]
    rintro digits ⟨⟩
    exact h rfl

/-- Laying out resolves every entry and puts it where it belongs. -/
theorem exists_of_layout (program : Text) {style : HyphenStyle} {entries : List (Text × Value)}
    {layout : Layout} (h : (c.layout exec style entries).result = .ok layout) :
    ∃ resolved, List.Forall₂ c.ResolvesTo entries resolved ∧
      (∀ entry ∈ resolved, entry.1.head? = some '_' → position? entry.1 ≠ none) ∧
      layout = (Invocation.mk program style resolved).layout := by
  induction entries generalizing layout with
  | nil =>
    cases h
    exact ⟨[], .nil, fun _ hm => absurd hm List.not_mem_nil, rfl⟩
  | cons entry entries ih =>
    obtain ⟨key, value⟩ := entry
    cases value with
    | nested d => cases h
    | scalar raw =>
      obtain ⟨value, hvalue, h⟩ := Traced.bind_eq_ok.1 h
      have hresolves : c.ResolvesTo (key, .scalar raw) (key, value) := ⟨rfl, raw, rfl, hvalue⟩
      split at h
      · next hkey =>
        split at h
        · cases h
        · next position hposition =>
          obtain ⟨rest, hrest, h⟩ := Traced.bind_eq_ok.1 h
          cases h
          obtain ⟨resolved, hall, hpositions, rfl⟩ := ih hrest
          refine ⟨(key, value) :: resolved, .cons hresolves hall,
            List.forall_mem_cons.2 ⟨fun _ => ?_, hpositions⟩, ?_⟩
          · rw [hposition]
            exact Option.some_ne_none _
          · simp [Invocation.layout, Invocation.options, Invocation.positionals, hkey,
              hposition]
      · next hkey =>
        obtain ⟨rest, hrest, h⟩ := Traced.bind_eq_ok.1 h
        cases h
        obtain ⟨resolved, hall, hpositions, rfl⟩ := ih hrest
        refine ⟨(key, value) :: resolved, .cons hresolves hall,
          List.forall_mem_cons.2 ⟨fun h => absurd h hkey, hpositions⟩, ?_⟩
        simp [Invocation.layout, Invocation.options, Invocation.positionals, hkey,
          position?_eq_none hkey, HyphenStyle.optionUnit]

/-- A command line is the words of its invocation's units. -/
theorem exists_invocation (h : (c.commandLine exec).result = .ok cmd) :
    ∃ command i, c.document.section? exec = some command ∧ c.Invokes command i ∧
      cmd.words = (i.layout.placed i.program).flatMap Placed.words := by
  obtain ⟨command, name, program, layout, hcommand, hname, hprogram, hlayout, rfl⟩ :=
    commandLine_eq_ok.1 h
  have hwords := layout.words_eq program
  rw [execLayout] at hlayout
  split at hlayout
  · next hcmdline =>
    cases hlayout
    exact ⟨command, ⟨program, .single, []⟩, hcommand,
      ⟨⟨name, hname, hprogram⟩, by rw [hcmdline]; exact ⟨rfl, rfl⟩,
        fun _ hm => absurd hm List.not_mem_nil⟩, hwords⟩
  · next cmdline hcmdline =>
    obtain ⟨style, hstyle, hlayout⟩ : ∃ style, command.hyphenStyle = .ok style ∧
        (c.layout exec style cmdline.toList).result = .ok layout := by
      split at hlayout
      · next hnone =>
        have hstyle : command.hyphenStyle = .ok .single := by rw [Document.hyphenStyle, hnone]
        exact ⟨.single, hstyle, hlayout⟩
      · next styleName hsome =>
        obtain ⟨style, hnamed, hlayout⟩ := Traced.bind_eq_ok.1 hlayout
        have hstyle : command.hyphenStyle = .ok style := by
          rw [Document.hyphenStyle, hsome]
          exact hnamed
        exact ⟨style, hstyle, hlayout⟩
    obtain ⟨resolved, hall, hpositions, rfl⟩ := exists_of_layout program hlayout
    exact ⟨command, ⟨program, style, resolved⟩, hcommand,
      ⟨⟨name, hname, hprogram⟩, by rw [hcmdline]; exact ⟨hstyle, hall⟩, hpositions⟩, hwords⟩

end Context

/-! ### The units of an invocation -/

/-- Units that are the given ones in their order, and positional values, each of
the given ones once. -/
structure Placed.MadeOf (units : List Placed) (own : List (List Text))
    (ps : List (Nat × Text)) : Prop where
  own : ownUnits units = own
  positionals : (positionals units).Perm ps

namespace Invocation

variable (i : Invocation)

theorem placed_layout :
    i.layout.placed i.program = Placed.putAll (i.baseUnits.map .own) i.layout.queue := rfl

theorem madeOf_placed :
    Placed.MadeOf (i.layout.placed i.program) i.baseUnits i.positionals where
  own := by rw [placed_layout, Placed.ownUnits_putAll, Placed.ownUnits_map_own]
  positionals := by
    have hperm := Placed.positionals_putAll (i.baseUnits.map .own) i.layout.queue
    rw [Placed.positionals_map_own, List.nil_append] at hperm
    exact hperm.trans i.layout.queue_perm

theorem pairwise_lt_queue (hdistinct : (i.positionals.map Prod.fst).Nodup) :
    i.layout.queue.Pairwise fun a b => a.1 < b.1 := by
  have hperm : i.layout.queue.Perm i.positionals := i.layout.queue_perm
  have hne : i.layout.queue.Pairwise fun a b => a.1 ≠ b.1 :=
    List.pairwise_map.1 ((hperm.map Prod.fst).nodup_iff.2 hdistinct)
  exact (i.layout.pairwise_queue.and hne).imp fun h => Nat.lt_of_le_of_ne h.1 h.2

theorem getElem?_placed (hdistinct : (i.positionals.map Prod.fst).Nodup) {p : Nat × Text}
    (hp : p ∈ i.positionals) :
    (i.layout.placed i.program)[min p.1
        (i.baseUnits.length + i.positionals.countP fun a => a.1 < p.1)]? =
      some (.positional p) := by
  have hperm : i.layout.queue.Perm i.positionals := i.layout.queue_perm
  have hget := Placed.getElem?_putAll (i.baseUnits.map .own) (i.pairwise_lt_queue hdistinct)
    (hperm.mem_iff.2 hp)
  rwa [hperm.countP_eq, List.length_map] at hget

/-- The last value that asks for the front has it, and otherwise the program. -/
theorem head?_placed : (i.layout.placed i.program).head? =
    some (((i.positionals.filter fun a => a.1 = 0).getLast?.map .positional).getD
      (.own [i.program])) := by
  have hhead := Placed.head?_putAll (.own [i.program]) (i.options.map .own) i.layout.queue
  rwa [i.layout.filter_queue] at hhead

/-- The places in front of position `n` that the program, the options and the
values that ask for less leave. -/
def room (n : Nat) : Nat := Placed.room i.baseUnits.length i.positionals n

theorem room_queue (n : Nat) :
    Placed.room (i.baseUnits.map Placed.own).length i.layout.queue n = i.room n := by
  rw [room, Placed.room, Placed.room, List.length_map]
  exact congrArg (fun k => n - (i.baseUnits.length + k)) (i.layout.queue_perm.countP_eq _)

theorem filter_placed (n : Nat) :
    (Placed.positionals (i.layout.placed i.program)).filter (fun a => a.1 = n) =
      (i.positionals.filter fun a => a.1 = n).take (i.room n) ++
        ((i.positionals.filter fun a => a.1 = n).drop (i.room n)).reverse := by
  have hfilter := Placed.filter_putAll (Placed.positionals_map_own i.baseUnits)
    i.layout.pairwise_queue n
  rwa [room_queue, i.layout.filter_queue] at hfilter

theorem positionals_placed
    (hroom : ∀ n, (i.positionals.filter fun a => a.1 = n).length ≤ i.room n + 1) :
    Placed.positionals (i.layout.placed i.program) = i.layout.queue := by
  refine (Placed.positionals_putAll_of_room (Placed.positionals_map_own i.baseUnits)
    i.layout.pairwise_queue fun n => ?_).1
  rw [room_queue, i.layout.filter_queue]
  exact hroom n

/-- If no two values ask for one position, there is room for all. -/
theorem length_filter_le_of_nodup (hdistinct : (i.positionals.map Prod.fst).Nodup) (n : Nat) :
    (i.positionals.filter fun a => a.1 = n).length ≤ i.room n + 1 := by
  have hcount : (i.positionals.map Prod.fst).count n ≤ 1 :=
    List.nodup_iff_count_le_one.1 hdistinct n
  rw [List.count, List.countP_map, List.countP_eq_length_filter] at hcount
  exact Nat.le_trans hcount (Nat.le_add_left 1 _)

end Invocation

/-! ### Command lines -/

namespace Context

variable {c : Context} {exec : Text} {cmd : CommandLine}

/-- A document with a command whose section `cmdline` has the given entries. -/
def commandDocument (cmdline : List (Text × Value)) : Document :=
  .ofList [
    ("tool".toList, .scalar "prog".toList),
    ("n".toList, .scalar "3".toList),
    ("exec_1".toList, .nested (.ofList [
      ("execname".toList, .scalar "$\x7btool\x7d".toList),
      ("cmd_hyphen".toList, .scalar "mixed_gnu".toList),
      ("cmdline".toList, .nested (.ofList cmdline))]))]

/-- **The layout of a command line.**  Its words are those of units that are the
program and the options, in the order of the document, and every positional
value once; and if no two values ask for one position, each stands at its own,
or at the end of what is there without those that ask for more. -/
theorem commandLine_layout (h : (c.commandLine exec).result = .ok cmd) :
    ∃ command i placed, c.document.section? exec = some command ∧ c.Invokes command i ∧
      cmd.words = placed.flatMap Placed.words ∧
      Placed.MadeOf placed i.baseUnits i.positionals ∧
      ((i.positionals.map Prod.fst).Nodup → ∀ p ∈ i.positionals,
        placed[min p.1 (i.baseUnits.length + i.positionals.countP fun a => a.1 < p.1)]? =
          some (.positional p)) := by
  obtain ⟨command, i, hcommand, hinvokes, hwords⟩ := exists_invocation h
  exact ⟨command, i, _, hcommand, hinvokes, hwords, i.madeOf_placed,
    fun hdistinct p hp => i.getElem?_placed hdistinct hp⟩

/-- Two values in front of a flag and an option of two words, and one past the
end. -/
theorem commandLine_layout_spread :
    let c : Context := { document := commandDocument [
      ("_02".toList, .scalar "out".toList), ("q".toList, .scalar "_flag".toList),
      ("_1".toList, .scalar "in".toList), ("level".toList, .scalar "$\x7bn\x7d".toList),
      ("_10".toList, .scalar "last".toList)] }
    let i : Invocation := ⟨"prog".toList, .mixed, [
      ("_02".toList, "out".toList), ("q".toList, "_flag".toList), ("_1".toList, "in".toList),
      ("level".toList, "3".toList), ("_10".toList, "last".toList)]⟩
    ∃ cmd placed, (c.commandLine "exec_1".toList).result = .ok cmd ∧
      cmd.words = ["prog".toList, "in".toList, "out".toList, "-q".toList, "--level".toList,
        "3".toList, "last".toList] ∧
      cmd.words = placed.flatMap Placed.words ∧
      Placed.MadeOf placed i.baseUnits i.positionals ∧
      placed[1]? = some (.positional (1, "in".toList)) ∧
      placed[2]? = some (.positional (2, "out".toList)) ∧
      placed[5]? = some (.positional (10, "last".toList)) := by
  intro c i
  have hrun : (c.commandLine "exec_1".toList).result =
      .ok ⟨"exec_1".toList, (Layout.mk [["-q".toList], ["--level".toList, "3".toList]]
        [(2, "out".toList), (1, "in".toList), (10, "last".toList)]).words "prog".toList⟩ :=
    commandLine_eq_ok.2 ⟨_, _, _, _, rfl, rfl, rfl, rfl, rfl⟩
  obtain ⟨command, i', placed, hcommand, hinvokes, hwords, hmade, hplaces⟩ :=
    commandLine_layout hrun
  cases hcommand
  obtain rfl : i' = i := hinvokes.unique ⟨⟨_, rfl, rfl⟩, ⟨rfl, .cons ⟨rfl, _, rfl, rfl⟩
    (.cons ⟨rfl, _, rfl, rfl⟩ (.cons ⟨rfl, _, rfl, rfl⟩ (.cons ⟨rfl, _, rfl, rfl⟩
      (.cons ⟨rfl, _, rfl, rfl⟩ .nil))))⟩, by decide⟩
  refine ⟨_, placed, hrun, by cbv, hwords, hmade, ?_, ?_, ?_⟩
  · exact hplaces (by decide) (1, "in".toList) (by decide)
  · exact hplaces (by decide) (2, "out".toList) (by decide)
  · exact hplaces (by decide) (10, "last".toList) (by decide)

/-- **The program of a command line.**  If no value asks for position 0, it is
the resolved program, and the arguments are the options and the positional
values.  Otherwise it is the last value that does, and the program is among the
arguments. -/
theorem commandLine_program (h : (c.commandLine exec).result = .ok cmd) :
    ∃ command i, c.document.section? exec = some command ∧ c.Invokes command i ∧
      ((∀ p ∈ i.positionals, p.1 ≠ 0) → cmd.program = i.program ∧
        ∃ placed, Placed.MadeOf placed i.options i.positionals ∧
          cmd.arguments = placed.flatMap Placed.words) ∧
      ∀ p, (i.positionals.filter fun a => a.1 = 0).getLast? = some p → cmd.program = p.2 ∧
        ∃ placed ps, (p :: ps).Perm i.positionals ∧ Placed.MadeOf placed i.baseUnits ps ∧
          cmd.arguments = placed.flatMap Placed.words := by
  obtain ⟨command, i, hcommand, hinvokes, hwords⟩ := exists_invocation h
  have hmade := i.madeOf_placed
  have hhead := i.head?_placed
  refine ⟨command, i, hcommand, hinvokes, fun hnone => ?_, fun p hp => ?_⟩
  · have hfilter : (i.positionals.filter fun a => a.1 = 0) = [] :=
      List.filter_eq_nil_iff.2 fun a ha => by simpa using hnone a ha
    rw [hfilter] at hhead
    obtain ⟨placed, hplaced⟩ := List.head?_eq_some_iff.1 hhead
    rw [hplaced] at hwords hmade
    refine ⟨?_, placed, ⟨(List.cons.inj hmade.own).2, hmade.positionals⟩, ?_⟩
    · rw [CommandLine.program, hwords]
      rfl
    · rw [CommandLine.arguments, hwords]
      rfl
  · rw [hp] at hhead
    obtain ⟨placed, hplaced⟩ := List.head?_eq_some_iff.1 hhead
    rw [hplaced] at hwords hmade
    refine ⟨?_, placed, Placed.positionals placed, hmade.positionals, ⟨hmade.own, .rfl⟩, ?_⟩
    · rw [CommandLine.program, hwords]
      rfl
    · rw [CommandLine.arguments, hwords]
      rfl

/-- An option and a value behind the program. -/
theorem commandLine_program_first :
    let c : Context := { document := commandDocument [
      ("_1".toList, .scalar "in".toList), ("v".toList, .scalar "_flag".toList)] }
    let i : Invocation := ⟨"prog".toList, .mixed, [
      ("_1".toList, "in".toList), ("v".toList, "_flag".toList)]⟩
    ∃ cmd placed, (c.commandLine "exec_1".toList).result = .ok cmd ∧
      cmd.program = "prog".toList ∧ Placed.MadeOf placed i.options i.positionals ∧
      cmd.arguments = placed.flatMap Placed.words := by
  intro c i
  have hrun : (c.commandLine "exec_1".toList).result =
      .ok ⟨"exec_1".toList, (Layout.mk [["-v".toList]] [(1, "in".toList)]).words "prog".toList⟩ :=
    commandLine_eq_ok.2 ⟨_, _, _, _, rfl, rfl, rfl, rfl, rfl⟩
  obtain ⟨command, i', hcommand, hinvokes, hfirst, -⟩ := commandLine_program hrun
  cases hcommand
  obtain rfl : i' = i := hinvokes.unique ⟨⟨_, rfl, rfl⟩, ⟨rfl, .cons ⟨rfl, _, rfl, rfl⟩
    (.cons ⟨rfl, _, rfl, rfl⟩ .nil)⟩, by decide⟩
  obtain ⟨hprogram, placed, hmade, harguments⟩ := hfirst (by decide)
  exact ⟨_, placed, hrun, hprogram, hmade, harguments⟩

/-- A value that asks for position 0 is the program that runs. -/
theorem commandLine_program_replaced :
    let c : Context := { document := commandDocument [("_0".toList, .scalar "in".toList)] }
    ∃ cmd, (c.commandLine "exec_1".toList).result = .ok cmd ∧
      (c.resolveSingle "$\x7btool\x7d".toList).result = .ok "prog".toList ∧
      cmd.program = "in".toList ∧ cmd.arguments = ["prog".toList] := by
  have hwords : (Layout.mk [] [(0, "in".toList)]).words "prog".toList =
      ["in".toList, "prog".toList] := by cbv
  exact ⟨⟨"exec_1".toList, (Layout.mk [] [(0, "in".toList)]).words "prog".toList⟩,
    commandLine_eq_ok.2 ⟨_, _, _, _, rfl, rfl, rfl, rfl, rfl⟩, rfl,
    congrArg (List.headD · []) hwords, congrArg List.tail hwords⟩

/-- **The order of positional values.**  If no two values ask for one position,
they are in the order of their positions.  Of those that do, those come in the
order of the document that there is room for in front of the position, and the
others in the opposite order; and if there is always room for all but one, the
values are still in the order of their positions, and in that of the document
where those are equal. -/
theorem commandLine_order (h : (c.commandLine exec).result = .ok cmd) :
    ∃ command i placed, c.document.section? exec = some command ∧ c.Invokes command i ∧
      cmd.words = placed.flatMap Placed.words ∧
      Placed.MadeOf placed i.baseUnits i.positionals ∧
      ((i.positionals.map Prod.fst).Nodup →
        (Placed.positionals placed).Pairwise fun a b => a.1 < b.1) ∧
      (∀ n, (Placed.positionals placed).filter (fun a => a.1 = n) =
        (i.positionals.filter fun a => a.1 = n).take (i.room n) ++
          ((i.positionals.filter fun a => a.1 = n).drop (i.room n)).reverse) ∧
      ((∀ n, (i.positionals.filter fun a => a.1 = n).length ≤ i.room n + 1) →
        (Placed.positionals placed).Pairwise (fun a b => a.1 ≤ b.1) ∧
          ∀ n, (Placed.positionals placed).filter (fun a => a.1 = n) =
            i.positionals.filter fun a => a.1 = n) := by
  obtain ⟨command, i, hcommand, hinvokes, hwords⟩ := exists_invocation h
  refine ⟨command, i, _, hcommand, hinvokes, hwords, i.madeOf_placed, fun hdistinct => ?_,
    i.filter_placed, fun hroom => ?_⟩
  · rw [i.positionals_placed (i.length_filter_le_of_nodup hdistinct)]
    exact i.pairwise_lt_queue hdistinct
  · rw [i.positionals_placed hroom]
    exact ⟨i.layout.pairwise_queue, i.layout.filter_queue⟩

/-- Two values that ask for one position past the end, behind one that asks for
an earlier position. -/
theorem commandLine_order_end :
    let c : Context := { document := commandDocument [
      ("_9".toList, .scalar "a".toList), ("_09".toList, .scalar "b".toList),
      ("v".toList, .scalar "_flag".toList), ("_1".toList, .scalar "c".toList)] }
    let i : Invocation := ⟨"prog".toList, .mixed, [
      ("_9".toList, "a".toList), ("_09".toList, "b".toList), ("v".toList, "_flag".toList),
      ("_1".toList, "c".toList)]⟩
    ∃ cmd placed, (c.commandLine "exec_1".toList).result = .ok cmd ∧
      cmd.words = ["prog".toList, "c".toList, "-v".toList, "a".toList, "b".toList] ∧
      cmd.words = placed.flatMap Placed.words ∧
      Placed.MadeOf placed i.baseUnits i.positionals ∧
      (∀ n, (i.positionals.filter fun a => a.1 = n).length ≤ i.room n + 1) ∧
      (Placed.positionals placed).Pairwise (fun a b => a.1 ≤ b.1) ∧
      (Placed.positionals placed).filter (fun a => a.1 = 9) =
        [(9, "a".toList), (9, "b".toList)] := by
  intro c i
  have hrun : (c.commandLine "exec_1".toList).result =
      .ok ⟨"exec_1".toList, (Layout.mk [["-v".toList]]
        [(9, "a".toList), (9, "b".toList), (1, "c".toList)]).words "prog".toList⟩ :=
    commandLine_eq_ok.2 ⟨_, _, _, _, rfl, rfl, rfl, rfl, rfl⟩
  obtain ⟨command, i', placed, hcommand, hinvokes, hwords, hmade, -, -, hordered⟩ :=
    commandLine_order hrun
  cases hcommand
  obtain rfl : i' = i := hinvokes.unique ⟨⟨_, rfl, rfl⟩, ⟨rfl, .cons ⟨rfl, _, rfl, rfl⟩
    (.cons ⟨rfl, _, rfl, rfl⟩ (.cons ⟨rfl, _, rfl, rfl⟩ (.cons ⟨rfl, _, rfl, rfl⟩ .nil)))⟩,
    by decide⟩
  have hroom : ∀ n, (i.positionals.filter fun a => a.1 = n).length ≤ i.room n + 1 := by
    intro n
    have hpositionals : i.positionals = [(9, "a".toList), (9, "b".toList), (1, "c".toList)] := rfl
    by_cases h9 : n = 9
    · subst h9
      decide
    · by_cases h1 : n = 1
      · subst h1
        decide
      · simp [hpositionals, Ne.symm h9, Ne.symm h1]
  obtain ⟨hpairwise, hfilter⟩ := hordered hroom
  exact ⟨_, placed, hrun, by cbv, hwords, hmade, hroom, hpairwise, hfilter 9⟩

/-- Of two values that ask for one position the first is pushed to the right, and
behind one that asks for a later position. -/
theorem commandLine_order_pushed :
    let c : Context := { document := commandDocument [
      ("_1".toList, .scalar "a".toList), ("_01".toList, .scalar "b".toList),
      ("_2".toList, .scalar "c".toList)] }
    position? "_1".toList = some 1 ∧ position? "_01".toList = some 1 ∧
      position? "_2".toList = some 2 ∧
      ∃ cmd, (c.commandLine "exec_1".toList).result = .ok cmd ∧
        cmd.words = ["prog".toList, "b".toList, "c".toList, "a".toList] := by
  refine ⟨rfl, rfl, rfl, ⟨"exec_1".toList, (Layout.mk []
    [(1, "a".toList), (1, "b".toList), (2, "c".toList)]).words "prog".toList⟩,
    commandLine_eq_ok.2 ⟨_, _, _, _, rfl, rfl, rfl, rfl, rfl⟩, by cbv⟩

end Context

end Wcl
