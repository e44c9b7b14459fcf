import Wcl.Proofs.Markup.Spoken
import Wcl.Proofs.Markup.Written

/-!
# Lines broken in two

A backslash and a line feed, put anywhere into a text, do not change what the
text says (`Reader.parseText_break`).  In front of something they are taken out
again when the lines are joined, whatever stands there: in a key, in a comment,
between blanks, in a line that goes on already.  At the end of a text there is no
next line that is asked whether it goes on, so there it matters that what stands
in front does not (`Source.GoesOn`).
-/

namespace Wcl

namespace Source

/-! ### Going on -/

/-- The last of a text, blanks and line feeds apart, is a backslash. -/
def GoesOn (t : Text) : Prop := (Text.trimEnd t).getLast? = some '\\'

instance (t : Text) : Decidable (GoesOn t) := inferInstanceAs (Decidable (_ = some '\\'))

theorem continued?_eq_some_iff {l text : Text} :
    continued? l = some text ↔ Text.trimEnd l = text ++ ['\\'] := by
  rw [continued?]
  constructor
  · intro h
    split at h
    · next r hr =>
      cases h
      rw [← List.reverse_reverse (Text.trimEnd l), hr, List.reverse_cons]
    · cases h
  · intro h
    rw [h, List.reverse_append]
    simp

theorem continued?_eq_none_iff {l : Text} : continued? l = none ↔ ¬ GoesOn l := by
  rw [GoesOn, List.getLast?_eq_some_iff, Option.eq_none_iff_forall_ne_some]
  simp only [ne_eq, continued?_eq_some_iff, not_exists]

theorem continued?_backslash (l : Text) : continued? (l ++ ['\\']) = some l :=
  continued?_eq_some_iff.2 (Text.trimEnd_concat (by decide) l)

theorem goesOn_append_blanks {pad : Text} (h : ∀ c ∈ pad, isBlank c = true) (t : Text) :
    GoesOn (t ++ pad) ↔ GoesOn t := by
  rw [GoesOn, Text.trimEnd_append_blanks h, GoesOn]

theorem goesOn_append_of_ne_nil {u : Text} (h : Text.trimEnd u ≠ []) (t : Text) :
    GoesOn (t ++ u) ↔ GoesOn u := by
  rw [GoesOn, Text.trimEnd_append_of_ne_nil h, List.getLast?_append_of_ne_nil _ h, GoesOn]

/-! ### The lines of a text -/

/-- A text is cut into its lines and what stands behind the last line feed. -/
theorem exists_lines (t : Text) : ∃ (ls : List Text) (x : Text),
    t = ls.flatMap (· ++ ['\n']) ++ x ∧ (∀ l ∈ ls, '\n' ∉ l) ∧ '\n' ∉ x := by
  induction t with
  | nil => exact ⟨[], [], rfl, by simp, by simp⟩
  | cons c t ih =>
    obtain ⟨ls, x, rfl, hls, hx⟩ := ih
    by_cases hc : c = '\n'
    · subst hc
      exact ⟨[] :: ls, x, rfl, by simpa using hls, hx⟩
    · cases ls with
      | nil => exact ⟨[], c :: x, rfl, by simp, by simp [hx, Ne.symm hc]⟩
      | cons l ls =>
        obtain ⟨hl, hls⟩ := List.forall_mem_cons.1 hls
        refine ⟨(c :: l) :: ls, x, rfl, List.forall_mem_cons.2 ⟨?_, hls⟩, hx⟩
        simp [hl, Ne.symm hc]

theorem dropReturn_of_notMem {l : Text} (h : '\r' ∉ l) : dropReturn l = l :=
  if_neg fun hlast => h (List.mem_of_getLast? hlast)

theorem ofText_cons_line {l : Text} (h : '\n' ∉ l) (u : Text) :
    ofText (l ++ '\n' :: u) = some (dropReturn l) :: ofText u := by
  rw [ofText, List.splitOn_append_cons_self_of_not_mem h, ofPieces, ofText]
  exact List.splitOn_ne_nil _ _

theorem ofText_last {l : Text} (h : '\n' ∉ l) (hne : l ≠ []) : ofText l = [some l] := by
  rw [ofText, List.splitOn_eq_singleton h, ofPieces]
  simp [hne]

theorem ofText_lines_append {ls : List Text} (hfeed : ∀ l ∈ ls, '\n' ∉ l)
    (hreturn : ∀ l ∈ ls, '\r' ∉ l) (u : Text) :
    ofText (ls.flatMap (· ++ ['\n']) ++ u) = ls.map some ++ ofText u := by
  induction ls with
  | nil => rfl
  | cons l ls ih =>
    obtain ⟨hl, hls⟩ := List.forall_mem_cons.1 hfeed
    obtain ⟨hl', hls'⟩ := List.forall_mem_cons.1 hreturn
    rw [List.flatMap_cons, List.append_assoc, List.append_assoc, List.singleton_append,
      ofText_cons_line hl, dropReturn_of_notMem hl', ih hls hls']
    rfl

/-! ### Joining goes through a text from its start -/

theorem begunAtEnd_append (begun : Option Text) {s : Source} (hs : none ∉ s) (s' : Source) :
    begunAtEnd begun (s ++ s') = begunAtEnd (begunAtEnd begun s) s' := by
  induction s generalizing begun with
  | nil => rfl
  | cons line s ih =>
    obtain ⟨hline, hrest⟩ := not_or.1 (mt List.mem_cons.2 hs)
    cases line with
    | none => exact absurd rfl hline
    | some line => exact ih _ hrest

/-- What lines are joined to does not depend on the lines that follow. -/
theorem exists_joined_append (begun : Option Text) {s : Source} (hs : none ∉ s) :
    ∃ done, ∀ s', joined begun (s ++ s') = done ++ joined (begunAtEnd begun s) s' := by
  induction s generalizing begun with
  | nil => exact ⟨[], fun s' => rfl⟩
  | cons line s ih =>
    obtain ⟨hline, hrest⟩ := not_or.1 (mt List.mem_cons.2 hs)
    cases line with
    | none => exact absurd rfl hline
    | some line =>
      cases hc : continued? (begun.getD [] ++ line) with
      | some text =>
        obtain ⟨done, hdone⟩ := ih (some text) hrest
        refine ⟨done, fun s' => ?_⟩
        rw [List.cons_append, joined, begunAtEnd, hc]
        exact hdone s'
      | none =>
        obtain ⟨done, hdone⟩ := ih none hrest
        refine ⟨some (begun.getD [] ++ line) :: done, fun s' => ?_⟩
        rw [List.cons_append, joined, begunAtEnd, hc, List.cons_append]
        exact congrArg _ (hdone s')

/-- If a line goes on behind what it is joined to, it does so in the text. -/
theorem goesOn_of_begun {ls : List Text} {x : Text}
    (h : GoesOn ((begunAtEnd none (ls.map some)).getD [] ++ x)) :
    GoesOn (ls.flatMap (· ++ ['\n']) ++ x) := by
  induction ls using List.reverseRecOn generalizing x with
  | nil => exact h
  | append_singleton ls l ih =>
    by_cases hx : Text.trimEnd x = []
    · -- a blank line goes on only if what it is joined to does, which then has been begun
      -- with two backslashes
      rw [goesOn_append_blanks (Text.trimEnd_eq_nil_iff.1 hx)] at h ⊢
      rw [List.flatMap_append, List.flatMap_singleton, ← List.append_assoc,
        goesOn_append_blanks (List.forall_mem_singleton.2 rfl)]
      refine ih ?_
      by_contra hno
      rw [← continued?_eq_none_iff] at hno
      rw [List.map_append, begunAtEnd_append _ (by simp), List.map_singleton, begunAtEnd, hno] at h
      cases h
    · exact (goesOn_append_of_ne_nil hx _).2 ((goesOn_append_of_ne_nil hx _).1 h)

theorem joined_of_not_goesOn {begun : Option Text} {line : Text}
    (h : ¬ GoesOn (begun.getD [] ++ line)) (s : Source) :
    joined begun (some line :: s) = some (begun.getD [] ++ line) :: joined none s := by
  rw [joined, continued?_eq_none_iff.2 h]

/-! ### A line that is broken -/

theorem ofText_backslash {x : Text} (hx : '\n' ∉ x) (hreturn : '\r' ∉ x) (u : Text) :
    ofText (x ++ '\\' :: '\n' :: u) = some (x ++ ['\\']) :: ofText u := by
  have hfeed : '\n' ∉ x ++ ['\\'] := by simp [hx]
  have hreturn : '\r' ∉ x ++ ['\\'] := by simp [hreturn]
  have hline := ofText_cons_line hfeed u
  rwa [dropReturn_of_notMem hreturn, List.append_assoc] at hline

theorem joined_backslash (begun : Option Text) (x : Text) (s : Source) :
    joined begun (some (x ++ ['\\']) :: s) = joined (some (begun.getD [] ++ x)) s := by
  rw [joined, ← List.append_assoc, continued?_backslash]

theorem joined_break (begun : Option Text) (x y : Text) (s : Source) :
    joined begun (some (x ++ ['\\']) :: some y :: s) = joined begun (some (x ++ y) :: s) := by
  rw [joined_backslash, joined, joined, Option.getD_some, List.append_assoc]

/-- A break in front of something is taken out when lines are joined. -/
theorem joined_ofText_break (begun : Option Text) {x back : Text} (hx : '\n' ∉ x)
    (hreturn : '\r' ∉ x ++ back) (hback : back ≠ []) :
    joined begun (ofText (x ++ '\\' :: '\n' :: back)) = joined begun (ofText (x ++ back)) := by
  obtain ⟨hrx, hrback⟩ := not_or.1 (mt List.mem_append.2 hreturn)
  rw [ofText_backslash hx hrx]
  by_cases hfeed : '\n' ∈ back
  · obtain ⟨y, rest, rfl, hy⟩ := List.eq_append_cons_of_mem hfeed
    have hry : '\r' ∉ y := fun h => hrback (List.mem_append_left _ h)
    have hxy : '\n' ∉ x ++ y := by simp [hx, hy]
    rw [ofText_cons_line hy, ← List.append_assoc, ofText_cons_line hxy, dropReturn_of_notMem hry,
      dropReturn_of_notMem (by simp [hrx, hry])]
    exact joined_break begun x y (ofText rest)
  · rw [ofText_last hfeed hback, ofText_last (by simp [hx, hfeed]) (by simp [hback])]
    exact joined_break begun x back []

/-- At the end of a text a break adds at most a blank line. -/
theorem filterMap_joined_break_end (begun : Option Text) {x : Text} (hx : '\n' ∉ x)
    (hreturn : '\r' ∉ x) (hends : ¬ GoesOn (begun.getD [] ++ x)) :
    ((joined begun (ofText (x ++ ['\\', '\n']))).filterMap (Option.map Statement.ofLine)).filter
        (· != .blank) =
      ((joined begun (ofText x)).filterMap (Option.map Statement.ofLine)).filter (· != .blank) := by
  rw [ofText_backslash hx hreturn, joined_backslash]
  by_cases hne : x = []
  · subst hne
    cases begun with
    | none => rfl
    | some text => rw [Option.getD_some, List.append_nil]
  · rw [ofText_last hx hne, joined_of_not_goesOn hends]
    rfl

end Source

/-! ### A text that is broken -/

theorem Statement.spoken_break {front back : Text} (hreturn : '\r' ∉ front ++ back)
    (hends : back = [] → ¬ Source.GoesOn front) :
    spoken (front ++ '\\' :: '\n' :: back) = spoken (front ++ back) := by
  obtain ⟨ls, x, rfl, hls, hx⟩ := Source.exists_lines front
  have hret : ∀ l ∈ ls, '\r' ∉ l := fun l hl hm =>
    hreturn (List.mem_append_left _ (List.mem_append_left _
      (List.mem_flatMap.2 ⟨l, hl, List.mem_append_left _ hm⟩)))
  have hrest : '\r' ∉ x ++ back := fun hm => by
    rw [List.append_assoc] at hreturn
    exact hreturn (List.mem_append_right _ hm)
  obtain ⟨done, hdone⟩ := Source.exists_joined_append none (s := ls.map some) (by simp)
  simp only [spoken_eq, List.append_assoc, Source.ofText_lines_append hls hret, hdone,
    List.filterMap_append, List.filter_append]
  refine congrArg _ ?_
  by_cases hback : back = []
  · subst hback
    rw [List.append_nil] at hrest ⊢
    exact Source.filterMap_joined_break_end _ hx hrest fun h =>
      hends rfl (Source.goesOn_of_begun h)
  · rw [Source.joined_ofText_break _ hx hrest hback]

namespace Reader

/-- **Breaking a line changes nothing.**  A backslash and a line feed at any place of
a text without carriage returns change neither whether it can be read nor the
document it makes, whatever files and include functions there are.  Only at the
end of the text it matters that what stands in front of the place does not go on
already. -/
theorem parseText_break (r : Reader) (front back : Text) (hreturn : '\r' ∉ front ++ back)
    (hends : back = [] → ¬ Source.GoesOn front) (d : Document) :
    (r.parseText (front ++ '\\' :: '\n' :: back)).result = .ok d ↔
      (r.parseText (front ++ back)).result = .ok d :=
  r.parseText_congr (Statement.spoken_break hreturn hends) d

/-- A break in the comment of a line that goes on from another one, and one at the
end of the text, behind a directive. -/
theorem parseText_break_inside :
    let r : Reader := { host := ⟨fun path =>
      if path = "f".toList then .ok (.ofText "k 1\n".toList) else .error .notFound,
      fun _ => none⟩ }
    let front := "<s>\na = b \\\n c # no".toList
    let back := "te\n</s>\n<<include f>>".toList
    let d : Document := .ofList [
      ("s".toList, .nested (.ofList [("a".toList, .scalar "b  c".toList)])),
      ("k".toList, .scalar "1".toList)]
    (r.parseText (front ++ '\\' :: '\n' :: back)).result = .ok d ∧
      (r.parseText (front ++ back ++ ['\\', '\n'])).result = .ok d := by
  intro r front back d
  have hd : (r.parseText (front ++ back)).result = .ok d := by rfl
  refine ⟨(r.parseText_break front back (by decide) (by decide) d).2 hd,
    (r.parseText_break (front ++ back) [] (by decide) (by decide +kernel) d).2 ?_⟩
  rwa [List.append_nil]

end Reader

end Wcl
