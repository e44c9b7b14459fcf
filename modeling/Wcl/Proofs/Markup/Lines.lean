import Wcl.Proofs.Markup.Run

/-!
# Texts one behind the other

A text that ends with a line feed has its lines in front of those of what
follows (`Source.ofText_append`), and if no line of it goes on past its end
(`Source.Ended`) its logical lines as well.  So the statements of the whole are
those of the two parts (`Statement.ofText_append`).
-/

namespace Wcl

namespace Source

/-! ### Lines -/

theorem ofPieces_append {α : Type} (isEmpty : α → Bool) (line last : α → Option Text)
    (xs : List α) {ys : List α} (hys : ys ≠ []) :
    ofPieces isEmpty line last (xs ++ ys) = xs.map line ++ ofPieces isEmpty line last ys := by
  induction xs with
  | nil => rfl
  | cons x xs ih =>
    rw [List.cons_append, ofPieces, ih, List.map_cons, List.cons_append]
    intro h
    exact hys (List.append_eq_nil_iff.1 h).2

theorem ofText_append {t : Text} (h : t.getLast? = some '\n') (u : Text) :
    ofText (t ++ u) = ofText t ++ ofText u := by
  obtain ⟨body, rfl⟩ := List.getLast?_eq_some_iff.1 h
  have hwhole : (body ++ ['\n'] ++ u).splitOn '\n' = body.splitOn '\n' ++ u.splitOn '\n' := by
    rw [List.append_assoc]
    exact List.splitOn_append_cons_self body u
  have hfront : (body ++ ['\n']).splitOn '\n' = body.splitOn '\n' ++ [[]] :=
    List.splitOn_append_cons_self body []
  rw [ofText, ofText, hwhole, hfront, ofPieces_append _ _ _ _ (List.splitOn_ne_nil _ _),
    ofPieces_append _ _ _ _ (List.cons_ne_nil _ _), ofText]
  simp [ofPieces]

/-! ### Logical lines -/

/-- The texts of the logical lines; `begun` is what a line has been begun with. -/
def joined (begun : Option Text) : Source → List (Option Text)
  | [] => match begun with
    | none => []
    | some text => [some text]
  | none :: _ => [none]
  | some line :: lines =>
    match continued? (begun.getD [] ++ line) with
    | some text => joined (some text) lines
    | none => some (begun.getD [] ++ line) :: joined none lines

/-- What a line is begun with that goes on past the end. -/
def begunAtEnd (begun : Option Text) : Source → Option Text
  | [] => begun
  | none :: _ => none
  | some line :: lines => begunAtEnd (continued? (begun.getD [] ++ line)) lines

/-- No line of a text goes on past its end. -/
def Ended (t : Text) : Prop := begunAtEnd none (ofText t) = none

instance (t : Text) : Decidable (Ended t) := inferInstanceAs (Decidable (_ = none))

theorem map_snd_joinFrom (number : Nat) (begun : Option (Nat × Text)) (s : Source) :
    (joinFrom number begun s).map Prod.snd = joined (begun.map Prod.snd) s := by
  induction s generalizing number begun with
  | nil => cases begun <;> rfl
  | cons line s ih =>
    cases line with
    | none => rfl
    | some line =>
      rw [joinFrom, joined]
      cases continued? ((begun.map Prod.snd).getD [] ++ line) with
      | some text => exact ih _ _
      | none => exact congrArg (some _ :: ·) (ih _ none)

theorem joined_append {s : Source} (hs : none ∉ s) {begun : Option Text}
    (h : begunAtEnd begun s = none) (s' : Source) :
    joined begun (s ++ s') = joined begun s ++ joined none s' := by
  induction s generalizing begun with
  | nil =>
    obtain rfl : begun = none := h
    rfl
  | cons line s ih =>
    obtain ⟨hline, hrest⟩ := not_or.1 (mt List.mem_cons.2 hs)
    cases line with
    | none => exact absurd rfl hline
    | some line =>
      rw [begunAtEnd] at h
      rw [List.cons_append, joined, joined]
      cases hc : continued? (begun.getD [] ++ line) with
      | some text =>
        rw [hc] at h
        exact ih hrest h
      | none =>
        rw [hc] at h
        exact congrArg (some _ :: ·) (ih hrest h)

/-- The logical lines of a text and of what follows it. -/
theorem map_snd_logicalLines_append {t : Text} (hlast : t.getLast? = some '\n') (h : Ended t)
    (u : Text) :
    (ofText (t ++ u)).logicalLines.map Prod.snd =
      (ofText t).logicalLines.map Prod.snd ++ (ofText u).logicalLines.map Prod.snd := by
  simp only [logicalLines, map_snd_joinFrom, Option.map_none]
  rw [ofText_append hlast, joined_append (none_notMem_ofText t) h]

/-! ### Characters of logical lines -/

theorem continued?_subset {line text : Text} (h : continued? line = some text) : text ⊆ line := by
  rw [continued?] at h
  split at h
  · next r hr =>
    cases h
    intro c hc
    have hmem : c ∈ (Text.trimEnd line).reverse := by
      rw [hr]
      exact List.mem_cons_of_mem _ (List.mem_reverse.1 hc)
    rw [Text.trimEnd_eq_rdropWhile] at hmem
    exact (List.rdropWhile_prefix isBlank line).subset (List.mem_reverse.1 hmem)
  · cases h

/-- Joining lines adds no characters. -/
theorem mem_of_mem_joined {begun : Option Text} {s : Source} {l : Text} {c : Char}
    (h : some l ∈ joined begun s) (hc : c ∈ l) :
    c ∈ begun.getD [] ∨ ∃ line, some line ∈ s ∧ c ∈ line := by
  induction s generalizing begun with
  | nil =>
    cases begun with
    | none => exact absurd h List.not_mem_nil
    | some text =>
      cases List.mem_singleton.1 h
      exact .inl hc
  | cons line s ih =>
    cases line with
    | none => exact absurd (List.mem_singleton.1 h) (by simp)
    | some line =>
      have hfirst : c ∈ begun.getD [] ++ line →
          c ∈ begun.getD [] ∨ ∃ line', some line' ∈ some line :: s ∧ c ∈ line' :=
        fun hm => (List.mem_append.1 hm).imp_right fun hm => ⟨line, List.mem_cons_self .., hm⟩
      have hlater : (∃ line', some line' ∈ s ∧ c ∈ line') →
          ∃ line', some line' ∈ some line :: s ∧ c ∈ line' :=
        fun ⟨line', hline, hm⟩ => ⟨line', List.mem_cons_of_mem _ hline, hm⟩
      rw [joined] at h
      cases hcont : continued? (begun.getD [] ++ line) with
      | some text =>
        rw [hcont] at h
        rcases ih h with hm | hm
        · exact hfirst (continued?_subset hcont hm)
        · exact .inr (hlater hm)
      | none =>
        rw [hcont] at h
        rcases List.mem_cons.1 h with he | h
        · cases he
          exact hfirst hc
        · rcases ih h with hm | hm
          · exact absurd hm List.not_mem_nil
          · exact .inr (hlater hm)

/-- There is no line feed in a logical line of a text. -/
theorem feed_notMem_logicalLines {t : Text} {line : LogicalLine}
    (hline : line ∈ (ofText t).logicalLines) {l : Text} (hl : line.2 = some l) : '\n' ∉ l := by
  intro hm
  have hjoined : some l ∈ joined none (ofText t) := by
    have hmem := List.mem_map_of_mem (f := Prod.snd) hline
    rwa [logicalLines, map_snd_joinFrom, hl] at hmem
  rcases mem_of_mem_joined hjoined hm with hm | ⟨l', hl', hm⟩
  · exact absurd hm List.not_mem_nil
  obtain ⟨p, hp, h⟩ := exists_of_mem_ofText hl'
  have hpiece := Text.notMem_of_mem_splitOn hp
  rcases h with h | h <;> cases h
  · refine hpiece ?_
    rw [dropReturn] at hm
    split at hm
    · exact List.dropLast_subset _ hm
    · exact hm
  · exact hpiece hm

end Source

namespace Statement

theorem ofLines_eq (lines : List LogicalLine) :
    ofLines lines = (lines.map Prod.snd).filterMap fun line => line.map ofLine := by
  rw [ofLines, List.filterMap_map]
  rfl

/-- The statements of a text and of what follows it. -/
theorem ofText_append {t : Text} (hlast : t.getLast? = some '\n') (h : Source.Ended t)
    (u : Text) : ofText (t ++ u) = ofText t ++ ofText u := by
  simp only [ofText, ofLines_eq]
  rw [Source.map_snd_logicalLines_append hlast h, List.filterMap_append]

end Statement

end Wcl
