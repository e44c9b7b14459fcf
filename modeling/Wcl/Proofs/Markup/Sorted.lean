import Wcl.Proofs.Document.Siblings
import Wcl.Proofs.Markup.Legible

/-!
# Sorted output

A section is written as the blocks of its entries, and each block is settled by
what stands under its key (`mem_blocks`).  There is one way to put blocks in the
order of their keys (`arrange_eq_of_mem`), and those of entries in order are left
as they are (`InOrder.arrange_blocks`).  So sorted output is the output of the
document with its siblings in order (`arrange_blocks_arranged`), which is the same
for equivalent documents (`Document.write_sorted`).
-/

namespace Wcl

/-! ### Blocks -/

/-- The lines of what stands under a key, `margin` blanks from the left. -/
def Value.block (indent : Nat) (sorted : Bool) (margin : Nat) (key : Text) : Value → List Text
  | .scalar t => if t.isEmpty then [] else [List.replicate margin ' ' ++ scalarLine key t]
  | .nested s =>
    let sortedInside := sorted && key != orderedKey
    (List.replicate margin ' ' ++ openingLine key) ::
      arrange sortedInside (s.entries.blocks indent sortedInside (margin + indent)) ++
        [List.replicate margin ' ' ++ closingLine key]

theorem Value.block_nested {key : Text} (h : key ≠ orderedKey) (indent : Nat) (sorted : Bool)
    (margin : Nat) (s : Document) : (Value.nested s).block indent sorted margin key =
      (List.replicate margin ' ' ++ openingLine key) ::
        arrange sorted (s.entries.blocks indent sorted (margin + indent)) ++
          [List.replicate margin ' ' ++ closingLine key] := by
  have hkey : (key != orderedKey) = true := bne_iff_ne.2 h
  rw [Value.block, hkey, Bool.and_true]

theorem Value.block_orderedKey (indent : Nat) (sorted : Bool) (margin : Nat) (s : Document) :
    (Value.nested s).block indent sorted margin orderedKey =
      (List.replicate margin ' ' ++ openingLine orderedKey) ::
        arrange false (s.entries.blocks indent false (margin + indent)) ++
          [List.replicate margin ' ' ++ closingLine orderedKey] := by
  rw [Value.block, bne_self_eq_false, Bool.and_false]

/-- Blocks are in the order of their keys in one way only. -/
theorem arrange_eq_of_mem {bs bs' : List (Text × List Text)} {f : Text → Option (List Text)}
    (hnodup : bs.Nodup) (hnodup' : bs'.Nodup) (h : ∀ k ls, (k, ls) ∈ bs ↔ f k = some ls)
    (h' : ∀ k ls, (k, ls) ∈ bs' ↔ f k = some ls) : arrange true bs = arrange true bs' := by
  have hperm : bs.Perm bs' :=
    (List.perm_ext_iff_of_nodup hnodup hnodup').2 fun b => (h b.1 b.2).trans (h' b.1 b.2).symm
  have hsorted : ∀ l : List (Text × List Text),
      (l.mergeSort fun a b => Text.atMost a.1 b.1).Pairwise fun a b => Text.atMost a.1 b.1 :=
    List.pairwise_mergeSort (fun _ _ _ => Text.atMost_trans) (fun _ _ => Text.atMost_total ..)
  have hmerged : (bs.mergeSort fun a b => Text.atMost a.1 b.1) =
      bs'.mergeSort fun a b => Text.atMost a.1 b.1 := by
    refine List.Perm.eq_of_pairwise (fun a b ha hb hab hba => ?_) (hsorted bs) (hsorted bs')
      ((List.mergeSort_perm bs _).trans (hperm.trans (List.mergeSort_perm bs' _).symm))
    have hkey : a.1 = b.1 := Text.atMost_antisymm hab hba
    have ha' := (h a.1 a.2).1 ((List.mergeSort_perm bs _).mem_iff.1 ha)
    have hb' := (h' b.1 b.2).1 ((List.mergeSort_perm bs' _).mem_iff.1 hb)
    rw [hkey, hb'] at ha'
    exact Prod.ext hkey (Option.some.inj ha').symm
  exact congrArg (List.flatMap Prod.snd) hmerged

namespace Entries

variable {e : Entries} {indent margin : Nat} {sorted : Bool}

theorem blocks_cons (k : Text) (v : Value) (rest : Entries) :
    (cons k v rest).blocks indent sorted margin =
      (k, v.block indent sorted margin k) :: rest.blocks indent sorted margin := by
  cases v with
  | scalar t => simp [cons, blocks, Value.block, scalarLine]
  | nested s => simp [cons, blocks, Value.block, openingLine, closingLine]

theorem map_fst_blocks (indent : Nat) (sorted : Bool) (margin : Nat) (e : Entries) :
    (e.blocks indent sorted margin).map Prod.fst = e.keys := by
  induction e using cons_induction with
  | nil => rfl
  | cons k v rest ih => rw [blocks_cons, List.map_cons, ih, keys_cons]

theorem UniqueKeys.nodup_blocks (h : e.UniqueKeys) : (e.blocks indent sorted margin).Nodup :=
  List.Pairwise.of_map Prod.fst (fun _ _ hne he => hne (congrArg Prod.fst he))
    ((map_fst_blocks indent sorted margin e).symm ▸ h.nodup)

/-- A block is that of what stands under its key. -/
theorem mem_blocks (h : e.UniqueKeys) {k : Text} {ls : List Text} :
    (k, ls) ∈ e.blocks indent sorted margin ↔
      (e.get? k).map (Value.block indent sorted margin k) = some ls := by
  induction e using cons_induction with
  | nil => simp [blocks, get?]
  | cons k' v rest ih =>
    obtain ⟨hk', -, hrest⟩ := uniqueKeys_cons.1 h
    rw [blocks_cons, List.mem_cons, ih hrest, get?_cons]
    split
    · next he =>
      subst he
      rw [get?_eq_none_iff.2 hk']
      simp [eq_comm]
    · next hne => simp [Ne.symm hne]

theorem blocks_withoutOrders (e : Entries) (margin : Nat) :
    e.withoutOrders.blocks indent sorted margin = e.blocks indent sorted margin := by
  induction e generalizing sorted margin with
  | nil => rfl
  | scalar k t rest ih => rw [withoutOrders, blocks, blocks, ih]
  | nested k o inner rest ihi ih => rw [withoutOrders, blocks, blocks, ihi, ih]

theorem InOrder.pairwise_blocks (h : e.InOrder) :
    (e.blocks indent sorted margin).Pairwise fun a b => Text.atMost a.1 b.1 := by
  induction e using cons_induction with
  | nil => exact .nil
  | cons k v rest ih =>
    obtain ⟨hfirst, -, hrest⟩ := inOrder_cons.1 h
    rw [blocks_cons]
    refine .cons (fun b hb => hfirst b.1 ?_) (ih hrest)
    rw [← map_fst_blocks indent sorted margin]
    exact List.mem_map_of_mem hb

/-- Entries in order are in the order that sorting puts them in. -/
theorem InOrder.arrange_blocks (h : e.InOrder) :
    arrange true (e.blocks indent sorted margin) = arrange false (e.blocks indent sorted margin) :=
  congrArg (List.flatMap Prod.snd) (List.mergeSort_of_pairwise h.pairwise_blocks)

/-- Sorting entries while they are written is putting them in order first. -/
theorem arrange_blocks_arranged (h : e.UniqueKeys) (margin : Nat) :
    arrange true (e.blocks indent true margin) = e.arranged.lines indent margin := by
  induction e using section_induction generalizing margin with
  | step e ih =>
    -- Under each key the arranged entries have the block that sorting makes there.
    have hblock : ∀ k, (e.arranged.get? k).map (Value.block indent false margin k) =
        (e.get? k).map (Value.block indent true margin k) := by
      intro k
      rw [get?_arranged h]
      cases hk : e.get? k with
      | none => rfl
      | some v =>
        cases v with
        | scalar t => rfl
        | nested s =>
          rw [Option.map_some, Option.map_some, Option.map_some, Value.arranged]
          by_cases hkey : k = orderedKey
          · rw [if_pos hkey, hkey, Value.block_orderedKey, Value.block_orderedKey]
          · rw [if_neg hkey, Value.block_nested hkey, Value.block_nested hkey,
              ih k s hk (uniqueKeys_of_get? h hk)]
            rfl
    change _ = arrange false (e.arranged.blocks indent false margin)
    rw [← (inOrder_arranged e).arrange_blocks]
    refine arrange_eq_of_mem h.nodup_blocks h.arranged.nodup_blocks (fun k ls => mem_blocks h)
      fun k ls => ?_
    rw [mem_blocks h.arranged, hblock]

/-! ### Blocks inside blocks -/

theorem lines_cons (k : Text) (v : Value) (rest : Entries) :
    (cons k v rest).lines indent margin =
      v.block indent false margin k ++ rest.lines indent margin := by
  rw [lines, blocks_cons]
  rfl

theorem block_infix_lines {k : Text} {v : Value} (h : e.get? k = some v) :
    v.block indent false margin k <:+: e.lines indent margin := by
  induction e using cons_induction with
  | nil => cases h
  | cons k' w rest ih =>
    rw [get?_cons] at h
    rw [lines_cons]
    split at h
    · next hk =>
      cases h
      exact hk ▸ (List.prefix_append ..).isInfix
    · exact (ih h).trans (List.suffix_append ..).isInfix

end Entries

namespace Document

variable {d e s : Document}

/-- The block of a section at a path is part of what is written. -/
theorem block_infix_of_sectionAt? {p : List Text} {k : Text} (h : sectionAt? (p ++ [k]) d = some s)
    (indent margin : Nat) : (Value.nested s).block indent false (margin + p.length * indent) k <:+:
      d.entries.lines indent margin := by
  induction p generalizing d margin with
  | nil =>
    obtain ⟨s', hs', h⟩ := Option.bind_eq_some_iff.1 h
    cases h
    rw [List.length_nil, Nat.zero_mul, Nat.add_zero]
    exact Entries.block_infix_lines (get?_of_section? hs')
  | cons k' p ih =>
    obtain ⟨s', hs', h⟩ := Option.bind_eq_some_iff.1 h
    have hmargin : margin + (k' :: p).length * indent = margin + indent + p.length * indent := by
      rw [List.length_cons, Nat.succ_mul]
      omega
    have hinner : s'.entries.lines indent (margin + indent) <:+:
        (Value.nested s').block indent false margin k' :=
      ⟨[_], [_], rfl⟩
    rw [hmargin]
    exact (ih h (margin + indent)).trans
      (hinner.trans (Entries.block_infix_lines (get?_of_section? hs')))

theorem lines_sorted (hd : d.UniqueKeys) (indent : Nat) :
    d.lines true indent = d.arranged.lines false indent :=
  Entries.arrange_blocks_arranged hd 0

theorem lines_withoutOrders (d : Document) (sorted : Bool) (indent : Nat) :
    d.withoutOrders.lines sorted indent = d.lines sorted indent :=
  congrArg (arrange sorted) (d.entries.blocks_withoutOrders 0)

/-- **Sorted output.**  It is the same for documents that differ in the order of
siblings alone; it is the output of the document with its siblings in order; and
the block of a section that keeps its order is part of it as it is. -/
theorem write_sorted (hd : d.UniqueKeys) (he : e.UniqueKeys)
    (h : d.entries.SiblingEquivalent e.entries) (indent : Nat) :
    d.write true indent = e.write true indent ∧
      (d.entries.SiblingEquivalent d.arranged.entries ∧ d.arranged.entries.InOrder ∧
        d.write true indent = d.arranged.write false indent) ∧
      ∀ p s, sectionAt? (p ++ [orderedKey]) d = some s →
        (Value.nested s).block indent false (p.length * indent) orderedKey <:+:
          d.lines true indent := by
  have hcanonical : d.arranged.withoutOrders = e.arranged.withoutOrders :=
    congrArg (Document.mk · []) ((Entries.siblingEquivalent_iff hd he).1 h)
  have hsame : d.lines true indent = e.lines true indent := by
    calc
      d.lines true indent = d.arranged.lines false indent := lines_sorted hd indent
      _ = d.arranged.withoutOrders.lines false indent := (lines_withoutOrders ..).symm
      _ = e.arranged.withoutOrders.lines false indent := by rw [hcanonical]
      _ = e.arranged.lines false indent := lines_withoutOrders ..
      _ = e.lines true indent := (lines_sorted he indent).symm
  refine ⟨congrArg (List.flatMap (· ++ ['\n'])) hsame,
    ⟨Entries.siblingEquivalent_arranged hd, Entries.inOrder_arranged d.entries,
      congrArg (List.flatMap (· ++ ['\n'])) (lines_sorted hd indent)⟩, fun p s hs => ?_⟩
  have hs' : sectionAt? (p ++ [orderedKey]) d.arranged = some s :=
    (sectionAt?_arranged hd p).trans hs
  have hblock := block_infix_of_sectionAt? hs' indent 0
  rw [Nat.zero_add] at hblock
  rw [lines_sorted hd]
  exact hblock

/-- Siblings in two orders around a section that keeps the order of its entries,
also inside the section in it, and search orders that are not written. -/
theorem write_sorted_shuffled :
    let cmdline : Document := .ofList [
      ("z".toList, .scalar "1".toList),
      ("s".toList, .nested (.ofList [
        ("y".toList, .scalar "2".toList), ("b".toList, .scalar "3".toList)])),
      ("a".toList, .scalar "_flag".toList)]
    let d : Document := .ofList [
      ("z".toList, .scalar "1".toList),
      ("x".toList, .nested (.ofList [
        ("name".toList, .scalar "p".toList), ("cmdline".toList, .nested cmdline)])),
      ("b".toList, .scalar "2".toList)]
    let e : Document := .ofList [
      ("x".toList, .nested ((ofList [
        ("cmdline".toList, .nested (cmdline.withSearchOrder ["s".toList])),
        ("name".toList, .scalar "p".toList)]).withSearchOrder ["cmdline".toList])),
      ("b".toList, .scalar "2".toList),
      ("z".toList, .scalar "1".toList)]
    d.UniqueKeys ∧ e.UniqueKeys ∧ d.entries.SiblingEquivalent e.entries ∧
      d.write true 1 = e.write true 1 ∧
      d.write true 1 = ("b = 2\n<x>\n <cmdline>\n  z = 1\n  <s>\n   y = 2\n   b = 3\n  </s>\n" ++
        "  a = _flag\n </cmdline>\n name = p\n</x>\nz = 1\n").toList ∧
      (Value.nested cmdline).block 1 false 1 orderedKey <:+: d.lines true 1 := by
  intro cmdline d e
  have hd : d.UniqueKeys := by decide
  have he : e.UniqueKeys := by decide
  have h : d.entries.SiblingEquivalent e.entries :=
    (Entries.siblingEquivalent_iff hd he).2 (by decide)
  obtain ⟨hsame, ⟨-, -, harranged⟩, hblock⟩ := write_sorted hd he h 1
  exact ⟨hd, he, h, hsame, harranged.trans (by decide), hblock ["x".toList] cmdline (by decide)⟩

end Document

end Wcl
