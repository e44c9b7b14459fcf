import Mathlib.Data.List.Induction
import Wcl.Command

/-!
# Positional values among the units of a command line

The units of a command line, each with what it is: a unit of its own, which is
the program or an option with its value, or a positional value with the position
that it asks for (`Placed`).  Positional values are put in one after another
(`putAll`), the smallest position first.

* Whatever the positions are, the other units stay as they are and in their
  order, and every positional value is put in once (`ownUnits_putAll`,
  `positionals_putAll`).
* A value whose position no other one asks for stands there, or at the end of
  what there was when it came (`getElem?_putAll`).
* The last value that asks for the very front gets it (`head?_putAll`).
* Values that ask for one position come out in their order as long as they are
  put at the end, and the others in the opposite order (`filter_putAll`), since
  each pushes the one before it to the right.  As long as there is no more than
  one of the others, all values come out in order (`positionals_putAll_of_room`).

All of these are inductions on the values from the last one to the first: what
the last one does to the units is one step (`put`).
-/

namespace Wcl

/-- A unit of a command line, with what it is. -/
inductive Placed
  /-- The program, or an option with its value. -/
  | own (words : List Text)
  /-- A value, with the position that it asks for. -/
  | positional (p : Nat × Text)
  deriving DecidableEq, Repr

namespace Placed

/-- The words of a unit. -/
def words : Placed → List Text
  | own ws => ws
  | positional p => [p.2]

/-- The units that are no positional values. -/
def ownUnits (units : List Placed) : List (List Text) :=
  units.filterMap fun
    | own ws => some ws
    | positional _ => none

/-- The positional values with their positions. -/
def positionals (units : List Placed) : List (Nat × Text) :=
  units.filterMap fun
    | own _ => none
    | positional p => some p

/-- Puts a value in at its position, or at the end if that comes first. -/
def put (units : List Placed) (p : Nat × Text) : List Placed :=
  units.take p.1 ++ positional p :: units.drop p.1

/-- Puts values in, one after another. -/
def putAll (units : List Placed) (ps : List (Nat × Text)) : List Placed := ps.foldl put units

variable {units : List Placed} {p q : Nat × Text} {ps : List (Nat × Text)}

@[simp] theorem ownUnits_append (us vs : List Placed) :
    ownUnits (us ++ vs) = ownUnits us ++ ownUnits vs :=
  List.filterMap_append

@[simp] theorem ownUnits_positional (p : Nat × Text) (us : List Placed) :
    ownUnits (positional p :: us) = ownUnits us := rfl

@[simp] theorem ownUnits_own (ws : List Text) (us : List Placed) :
    ownUnits (own ws :: us) = ws :: ownUnits us := rfl

@[simp] theorem positionals_append (us vs : List Placed) :
    positionals (us ++ vs) = positionals us ++ positionals vs :=
  List.filterMap_append

@[simp] theorem positionals_positional (p : Nat × Text) (us : List Placed) :
    positionals (positional p :: us) = p :: positionals us := rfl

@[simp] theorem positionals_own (ws : List Text) (us : List Placed) :
    positionals (own ws :: us) = positionals us := rfl

theorem ownUnits_map_own (us : List (List Text)) : ownUnits (us.map own) = us := by
  induction us with
  | nil => rfl
  | cons ws us ih => rw [List.map_cons, ownUnits_own, ih]

theorem positionals_map_own (us : List (List Text)) : positionals (us.map own) = [] := by
  induction us with
  | nil => rfl
  | cons ws us ih => rw [List.map_cons, positionals_own, ih]

theorem mem_positionals : p ∈ positionals units ↔ positional p ∈ units := by
  induction units with
  | nil => simp [positionals]
  | cons u us ih =>
    cases u with
    | own ws => simp [ih]
    | positional q => simp [ih]

/-! ### Putting values in -/

@[simp] theorem putAll_nil (units : List Placed) : putAll units [] = units := rfl

theorem putAll_concat (units : List Placed) (ps : List (Nat × Text)) (p : Nat × Text) :
    putAll units (ps ++ [p]) = put (putAll units ps) p := by
  rw [putAll, List.foldl_append, putAll]
  rfl

@[simp] theorem length_put (units : List Placed) (p : Nat × Text) :
    (put units p).length = units.length + 1 := by
  rw [put, List.length_append, List.length_cons, List.length_take, List.length_drop]
  omega

theorem length_putAll (units : List Placed) (ps : List (Nat × Text)) :
    (putAll units ps).length = units.length + ps.length := by
  induction ps using List.reverseRecOn with
  | nil => rfl
  | append_singleton ps p ih => rw [putAll_concat, length_put, ih, List.length_append]; rfl

/-- The other units stay as they are. -/
theorem ownUnits_putAll (units : List Placed) (ps : List (Nat × Text)) :
    ownUnits (putAll units ps) = ownUnits units := by
  induction ps using List.reverseRecOn with
  | nil => rfl
  | append_singleton ps p ih =>
    rw [putAll_concat, put, ownUnits_append, ownUnits_positional, ← ownUnits_append,
      List.take_append_drop, ih]

/-- Every value is put in once. -/
theorem positionals_putAll (units : List Placed) (ps : List (Nat × Text)) :
    (positionals (putAll units ps)).Perm (positionals units ++ ps) := by
  induction ps using List.reverseRecOn with
  | nil => simp
  | append_singleton ps p ih =>
    have hput : (positionals (put (putAll units ps) p)).Perm
        (p :: positionals (putAll units ps)) := by
      rw [put, positionals_append, positionals_positional]
      refine List.perm_middle.trans ?_
      rw [← positionals_append, List.take_append_drop]
    rw [putAll_concat, ← List.append_assoc]
    exact (hput.trans (ih.cons p)).trans (List.perm_append_singleton p _).symm

theorem getElem?_put_of_lt {n : Nat} (h : n < min p.1 units.length) :
    (put units p)[n]? = units[n]? := by
  rw [put, List.getElem?_append_left (by rw [List.length_take]; exact h),
    List.getElem?_take_of_lt (by omega)]

theorem getElem?_put_self (units : List Placed) (p : Nat × Text) :
    (put units p)[min p.1 units.length]? = some (positional p) := by
  have hlen : (units.take p.1).length = min p.1 units.length := List.length_take
  rw [put, List.getElem?_append_right (Nat.le_of_eq hlen), hlen, Nat.sub_self]
  rfl

theorem put_of_length_le (h : units.length ≤ p.1) : put units p = units ++ [positional p] := by
  rw [put, List.take_of_length_le h, List.drop_of_length_le h]

theorem take_put (h : p.1 ≤ units.length) : (put units p).take p.1 = units.take p.1 := by
  have hlen : (units.take p.1).length = p.1 := List.length_take_of_le h
  rw [put, List.take_append_of_le_length (Nat.le_of_eq hlen.symm),
    List.take_of_length_le (Nat.le_of_eq hlen)]

theorem drop_put (h : p.1 ≤ units.length) :
    (put units p).drop p.1 = positional p :: units.drop p.1 := by
  have hlen : (units.take p.1).length = p.1 := List.length_take_of_le h
  rw [put, List.drop_append_of_le_length (Nat.le_of_eq hlen.symm),
    List.drop_of_length_le (Nat.le_of_eq hlen), List.nil_append]

/-! ### Positions that differ -/

/-- **A value stands at its position, or at the end of what there was when it
came.** -/
theorem getElem?_putAll (units : List Placed) (h : ps.Pairwise fun a b => a.1 < b.1)
    (hp : p ∈ ps) :
    (putAll units ps)[min p.1 (units.length + ps.countP fun a => a.1 < p.1)]? =
      some (positional p) := by
  induction ps using List.reverseRecOn with
  | nil => cases hp
  | append_singleton ps q ih =>
    obtain ⟨hps, -, hlast⟩ := List.pairwise_append.1 h
    have hlt : ∀ a ∈ ps, a.1 < q.1 := fun a ha => hlast a ha q (List.mem_singleton_self q)
    have hlen := length_putAll units ps
    rcases List.mem_append.1 hp with hp | hp
    · -- The last value comes behind all of those before it.
      have hq : ¬ q.1 < p.1 := Nat.not_lt.2 (Nat.le_of_lt (hlt p hp))
      have hcount : ps.countP (fun a => a.1 < p.1) < ps.length := by
        refine Nat.lt_of_le_of_ne List.countP_le_length fun he => ?_
        have := List.countP_eq_length.1 he p hp
        simp at this
      have hpq := hlt p hp
      rw [putAll_concat, List.countP_append, List.countP_singleton, if_neg (by simpa using hq),
        Nat.add_zero, getElem?_put_of_lt (by omega), ih hps hp]
    · obtain rfl := List.mem_singleton.1 hp
      have hcount : ps.countP (fun a => a.1 < p.1) = ps.length :=
        List.countP_eq_length.2 fun a ha => decide_eq_true (hlt a ha)
      rw [putAll_concat, List.countP_append, List.countP_singleton, hcount,
        if_neg (by simp), Nat.add_zero, ← hlen, getElem?_put_self]

/-! ### The front -/

/-- **The last value that asks for the front gets it.** -/
theorem head?_putAll (u : Placed) (units : List Placed) (ps : List (Nat × Text)) :
    (putAll (u :: units) ps).head? =
      some (((ps.filter fun a => a.1 = 0).getLast?.map positional).getD u) := by
  induction ps using List.reverseRecOn with
  | nil => rfl
  | append_singleton ps p ih =>
    obtain ⟨v, vs, hvs⟩ : ∃ v vs, putAll (u :: units) ps = v :: vs := by
      refine List.exists_cons_of_length_pos ?_
      rw [length_putAll, List.length_cons]
      omega
    rw [hvs, List.head?_cons] at ih
    rw [putAll_concat, hvs, List.filter_append]
    obtain ⟨n, t⟩ := p
    cases n with
    | zero => simp [put]
    | succ n => simpa [put] using ih

/-! ### Positions that several values ask for -/

/-- The places in front of position `n` that are left by `count` units and the
values that ask for less. -/
def room (count : Nat) (ps : List (Nat × Text)) (n : Nat) : Nat :=
  n - (count + ps.countP fun a => a.1 < n)

theorem mem_of_mem_putAll (hunits : positionals units = []) (h : positional p ∈ putAll units ps) :
    p ∈ ps := by
  have hmem := (positionals_putAll units ps).mem_iff.1 (mem_positionals.2 h)
  rwa [hunits, List.nil_append] at hmem

theorem countP_add_length_filter {n : Nat} (h : ∀ a ∈ ps, a.1 ≤ n) :
    ps.countP (fun a => a.1 < n) + (ps.filter fun a => a.1 = n).length = ps.length := by
  induction ps with
  | nil => rfl
  | cons a ps ih =>
    have hps := ih fun b hb => h b (List.mem_cons_of_mem _ hb)
    rcases Nat.lt_or_eq_of_le (h a (List.mem_cons_self ..)) with ha | ha
    · simp [ha, Nat.ne_of_lt ha]
      omega
    · simp [ha]
      omega

theorem filter_positionals_put_of_ne {n : Nat} (h : p.1 ≠ n) (units : List Placed) :
    (positionals (put units p)).filter (fun a => a.1 = n) =
      (positionals units).filter fun a => a.1 = n := by
  rw [put, positionals_append, positionals_positional, List.filter_append,
    List.filter_cons_of_neg (by simpa using h), ← List.filter_append, ← positionals_append,
    List.take_append_drop]

/-- Where no value asks for a position, none of the units does. -/
theorem filter_positionals_eq_nil {n : Nat} {part : List Placed} (hunits : positionals units = [])
    (hn : ∀ a ∈ ps, a.1 ≠ n) (hpart : ∀ u ∈ part, u ∈ putAll units ps) :
    (positionals part).filter (fun a => a.1 = n) = [] := by
  refine List.filter_eq_nil_iff.2 fun a ha => ?_
  have hmem : a ∈ ps := mem_of_mem_putAll hunits (hpart _ (mem_positionals.1 ha))
  simpa using hn a hmem

theorem filter_take_drop_putAll_of_ne {n : Nat} (hunits : positionals units = [])
    (hn : ∀ a ∈ ps, a.1 ≠ n) (count : Nat) :
    (positionals ((putAll units ps).take n)).filter (fun a => a.1 = n) =
        (ps.filter fun a => a.1 = n).take count ∧
      (positionals ((putAll units ps).drop n)).filter (fun a => a.1 = n) =
        ((ps.filter fun a => a.1 = n).drop count).reverse := by
  have hfilter : ps.filter (fun a => a.1 = n) = [] :=
    List.filter_eq_nil_iff.2 fun a ha => by simpa using hn a ha
  rw [filter_positionals_eq_nil hunits hn fun _ => List.mem_of_mem_take,
    filter_positionals_eq_nil hunits hn fun _ => List.mem_of_mem_drop, hfilter]
  simp

/-- The values that ask for the largest position: those in front of it have been
put at the end, and behind it each has come before the one before it. -/
theorem filter_take_drop_putAll {n : Nat} (hunits : positionals units = [])
    (h : ps.Pairwise fun a b => a.1 ≤ b.1) (hn : ∀ a ∈ ps, a.1 ≤ n) :
    (positionals ((putAll units ps).take n)).filter (fun a => a.1 = n) =
        (ps.filter fun a => a.1 = n).take (room units.length ps n) ∧
      (positionals ((putAll units ps).drop n)).filter (fun a => a.1 = n) =
        ((ps.filter fun a => a.1 = n).drop (room units.length ps n)).reverse := by
  induction ps using List.reverseRecOn with
  | nil => exact filter_take_drop_putAll_of_ne hunits (fun _ ha => absurd ha List.not_mem_nil) _
  | append_singleton ps p ih =>
    obtain ⟨hps, -, hlast⟩ := List.pairwise_append.1 h
    have hle : ∀ a ∈ ps, a.1 ≤ p.1 := fun a ha => hlast a ha p (List.mem_singleton_self p)
    have hpn : p.1 ≤ n := hn p (List.mem_append_right _ (List.mem_singleton_self p))
    rcases Nat.lt_or_eq_of_le hpn with hlt | rfl
    · refine filter_take_drop_putAll_of_ne hunits (fun a ha => ?_) _
      rcases List.mem_append.1 ha with ha | ha
      · exact Nat.ne_of_lt (Nat.lt_of_le_of_lt (hle a ha) hlt)
      · exact List.mem_singleton.1 ha ▸ Nat.ne_of_lt hlt
    · obtain ⟨htake, hdrop⟩ := ih hps hle
      have hlen := length_putAll units ps
      have hcount := countP_add_length_filter hle
      have hroom : room units.length (ps ++ [p]) p.1 = room units.length ps p.1 := by
        simp [room]
      have hfilter : (ps ++ [p]).filter (fun a => a.1 = p.1) =
          (ps.filter fun a => a.1 = p.1) ++ [p] := by
        simp [List.filter_append]
      rw [hroom, hfilter, putAll_concat]
      rcases Nat.lt_or_ge (putAll units ps).length p.1 with hend | hin
      · -- It is put at the end, and that is in front of its position.
        have hk : ((ps.filter fun a => a.1 = p.1) ++ [p]).length ≤ room units.length ps p.1 := by
          rw [room, List.length_append, List.length_singleton]
          omega
        have hk' : (ps.filter fun a => a.1 = p.1).length ≤ room units.length ps p.1 :=
          Nat.le_trans (by simp) hk
        have hnew : (put (putAll units ps) p).length ≤ p.1 := by
          rw [length_put]
          omega
        rw [List.take_of_length_le (Nat.le_of_lt hend), List.take_of_length_le hk'] at htake
        rw [List.take_of_length_le hnew, List.drop_of_length_le hnew,
          put_of_length_le (Nat.le_of_lt hend), positionals_append, List.filter_append, htake,
          List.take_of_length_le hk, List.drop_of_length_le hk]
        simp [positionals]
      · -- It is put in at its position, before the ones that stand there.
        have hk : room units.length ps p.1 ≤ (ps.filter fun a => a.1 = p.1).length := by
          rw [room]
          omega
        rw [take_put hin, drop_put hin, htake, List.take_append_of_le_length hk,
          List.drop_append_of_le_length hk]
        simp [hdrop]

/-- **Values that ask for one position** come out in their order as far as they
find room in front of it, and the others the other way round. -/
theorem filter_putAll (hunits : positionals units = []) (h : ps.Pairwise fun a b => a.1 ≤ b.1)
    (n : Nat) :
    (positionals (putAll units ps)).filter (fun a => a.1 = n) =
      (ps.filter fun a => a.1 = n).take (room units.length ps n) ++
        ((ps.filter fun a => a.1 = n).drop (room units.length ps n)).reverse := by
  induction ps using List.reverseRecOn with
  | nil => simp [hunits]
  | append_singleton ps p ih =>
    obtain ⟨hps, -, hlast⟩ := List.pairwise_append.1 h
    rcases Nat.lt_or_ge n p.1 with hlt | hle
    · -- A later position changes nothing among the values that ask for this one.
      have hroom : room units.length (ps ++ [p]) n = room units.length ps n := by
        simp [room, Nat.not_lt.2 (Nat.le_of_lt hlt)]
      have hfilter : (ps ++ [p]).filter (fun a => a.1 = n) = ps.filter fun a => a.1 = n := by
        simp [List.filter_append, Nat.ne_of_gt hlt]
      rw [putAll_concat, filter_positionals_put_of_ne (Nat.ne_of_gt hlt), ih hps, hroom, hfilter]
    · have hn : ∀ a ∈ ps ++ [p], a.1 ≤ n := by
        intro a ha
        rcases List.mem_append.1 ha with ha | ha
        · exact Nat.le_trans (hlast a ha p (List.mem_singleton_self p)) hle
        · exact List.mem_singleton.1 ha ▸ hle
      obtain ⟨htake, hdrop⟩ := filter_take_drop_putAll hunits h hn
      rw [← htake, ← hdrop, ← List.filter_append, ← positionals_append, List.take_append_drop]

/-- Every value stands at its position or in front of it. -/
def InPlace (units : List Placed) : Prop := ∀ n p, units[n]? = some (positional p) → n ≤ p.1

/-- **Where there is room for all values but one, they come out in order.** -/
theorem positionals_putAll_of_room (hunits : positionals units = [])
    (h : ps.Pairwise fun a b => a.1 ≤ b.1)
    (hroom : ∀ n, (ps.filter fun a => a.1 = n).length ≤ room units.length ps n + 1) :
    positionals (putAll units ps) = ps ∧ InPlace (putAll units ps) := by
  induction ps using List.reverseRecOn with
  | nil =>
    refine ⟨hunits, fun n p hp => ?_⟩
    have := mem_positionals.2 (List.mem_of_getElem? hp)
    rw [putAll_nil, hunits] at this
    cases this
  | append_singleton ps p ih =>
    obtain ⟨hps, -, hlast⟩ := List.pairwise_append.1 h
    have hle : ∀ a ∈ ps, a.1 ≤ p.1 := fun a ha => hlast a ha p (List.mem_singleton_self p)
    have hlen := length_putAll units ps
    obtain ⟨hval, hplace⟩ := ih hps fun n => by
      have := hroom n
      simp only [room, List.filter_append, List.countP_append, List.length_append] at this ⊢
      omega
    -- Behind its position there is none of the values before it.
    have hbehind : positionals ((putAll units ps).drop p.1) = [] := by
      refine List.eq_nil_iff_forall_not_mem.2 fun a ha => ?_
      obtain ⟨m, hm⟩ := List.mem_iff_getElem?.1 (mem_positionals.1 ha)
      rw [List.getElem?_drop] at hm
      have hbound := hplace _ _ hm
      have hmem : a ∈ ps := mem_of_mem_putAll hunits (List.mem_of_getElem? hm)
      have heq : a.1 = p.1 := Nat.le_antisymm (hle a hmem) (by omega)
      have hshare : 0 < (ps.filter fun a => a.1 = p.1).length :=
        List.length_pos_of_mem (List.mem_filter.2 ⟨hmem, by simpa using heq⟩)
      have hself : ([p].filter fun a => a.1 = p.1).length = 1 := by simp
      have hbefore : ([p].countP fun a => a.1 < p.1) = 0 := by simp
      have hlast := hroom p.1
      have hcount := countP_add_length_filter hle
      have hindex := (List.getElem?_eq_some_iff.1 hm).1
      rw [room, List.filter_append, List.countP_append, List.length_append, hself,
        hbefore] at hlast
      omega
    have hfront : positionals ((putAll units ps).take p.1) = ps := by
      have hsplit := positionals_append ((putAll units ps).take p.1) ((putAll units ps).drop p.1)
      rw [List.take_append_drop, hbehind, hval, List.append_nil] at hsplit
      exact hsplit.symm
    refine ⟨?_, fun n a ha => ?_⟩
    · rw [putAll_concat, put, positionals_append, positionals_positional, hbehind, hfront]
    · rw [putAll_concat] at ha
      rcases Nat.lt_trichotomy n (min p.1 (putAll units ps).length) with hn | rfl | hn
      · exact hplace n a (getElem?_put_of_lt hn ▸ ha)
      · rw [getElem?_put_self] at ha
        cases ha
        exact Nat.min_le_left ..
      · have hpart : ((putAll units ps).take p.1).length = min p.1 (putAll units ps).length :=
          List.length_take
        obtain ⟨m, hm⟩ : ∃ m, n - min p.1 (putAll units ps).length = m + 1 :=
          Nat.exists_eq_add_one_of_ne_zero (by omega)
        rw [put, List.getElem?_append_right (by omega), hpart, hm, List.getElem?_cons_succ] at ha
        have := mem_positionals.2 (List.mem_of_getElem? ha)
        rw [hbehind] at this
        cases this

end Placed

end Wcl
