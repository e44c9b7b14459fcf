import Wcl.Proofs.Markup.Continued
import Wcl.Proofs.Markup.Parts

/-!
# Blanks and comments behind a line

Spaces, tabs and a comment behind a line do not change what the text says
(`Reader.parseText_trailing`).  Each of the forms of a statement is read from a
trimmed line but for the assignments, and there the blanks go into the value,
which is trimmed (`Statement.ofBareLine_append_blanks`).

Three things are not so.  A comment goes on in the next line like anything else
if it ends in a backslash, blanks behind it apart.  A line that is blank hands on
what has been begun in front of it; with a comment in it, it does so no more
(`Source.leftOpen`).  And a key with an equals sign and nothing behind it is no
assignment, but with a blank behind it is one (`Statement.EndsInSign`).
-/

namespace Wcl

namespace Source

/-- A text cut in front of one of its lines and behind it. -/
structure IsLine (before line after : Text) : Prop where
  start : before = [] ∨ before.getLast? = some '\n'
  feed : '\n' ∉ line
  ending : after = [] ∧ line ≠ [] ∨ after.head? = some '\n'

/-- What can stand behind a line: spaces and tabs, and a comment that does not go
on in the next line. -/
structure Trails (blanks comment : Text) : Prop where
  blanks : ∀ c ∈ blanks, c = ' ' ∨ c = '\t'
  hash : comment = [] ∨ comment.head? = some '#'
  feed : '\n' ∉ comment
  ending : ¬ GoesOn comment

theorem Trails.allBlank {blanks comment : Text} (h : Trails blanks comment) :
    ∀ c ∈ blanks, isBlank c = true := fun c hc => by
  rcases h.blanks c hc with rfl | rfl <;> rfl

end Source

namespace Statement

/-! ### Blanks behind a statement -/

theorem run?_append_of_not {p : Char → Bool} {pad : Text} (h : ∀ c ∈ pad, p c = false) (t : Text) :
    run? p (t ++ pad) = (run? p t).map fun run => (run.1, run.2 ++ pad) := by
  have hpad : pad.takeWhile p = [] ∧ pad.dropWhile p = pad := by
    cases pad with
    | nil => exact ⟨rfl, rfl⟩
    | cons c pad => simp [h c (List.mem_cons_self ..)]
  have htake : (t ++ pad).takeWhile p = t.takeWhile p := by
    rw [List.takeWhile_append, hpad.1, List.append_nil]
    split
    · next hall => exact ((List.takeWhile_prefix p).eq_of_length hall).symm
    · rfl
  have hdrop : (t ++ pad).dropWhile p = t.dropWhile p ++ pad := by
    rw [List.dropWhile_append, hpad.2]
    split
    · next hnil => rw [List.isEmpty_iff.1 hnil, List.nil_append]
    · rfl
  rw [run?, run?, htake, hdrop]
  cases t.takeWhile p <;> rfl

theorem prefix_append_blanks {s pad : Text} (hs : ∀ c ∈ s, isBlank c = false)
    (hpad : ∀ c ∈ pad, isBlank c = true) {t : Text} : s <+: t ++ pad ↔ s <+: t := by
  induction t generalizing s with
  | nil =>
    cases s with
    | nil => simp
    | cons c s =>
      refine ⟨fun h => ?_, fun h => absurd (List.prefix_nil.1 h) (List.cons_ne_nil c s)⟩
      have hc := hs c (List.mem_cons_self ..)
      rw [hpad c (h.subset (List.mem_cons_self ..))] at hc
      cases hc
  | cons d t ih =>
    cases s with
    | nil => simp
    | cons c s =>
      rw [List.cons_append, List.cons_prefix_cons, List.cons_prefix_cons,
        ih (List.forall_mem_cons.1 hs).2]

/-- A key and an equals sign, and nothing behind the sign. -/
def EndsInSign (line : Text) : Prop :=
  ∃ pad key gap, line = pad ++ key ++ gap ++ ['='] ∧ (∀ c ∈ pad ++ gap, isBlank c = true) ∧
    key ≠ [] ∧ (∀ c ∈ key, isBlank c = false ∧ c ≠ '=' ∧ c ≠ '#') ∧ ¬ "<<".toList <+: key

theorem EndsInSign.getLast? {line : Text} (h : EndsInSign line) : line.getLast? = some '=' := by
  obtain ⟨pad, key, gap, rfl, _⟩ := h
  exact List.getLast?_concat

section

variable {pad line : Text}

theorem endsInSign_of_run? {key r : Text}
    (hrun : run? (fun c => !isBlank c && c != '=') (Text.trimStart line) = some (key, r))
    (hr : Text.trimStart r = ['=']) (hcomment : '#' ∉ line)
    (hmark : ¬ "<<".toList <+: Text.trimStart line) : EndsInSign line := by
  obtain ⟨hne, hkey, hsplit⟩ := run?_eq_some hrun
  have hline : line = line.takeWhile isBlank ++ (key ++ (r.takeWhile isBlank ++ ['='])) := by
    rw [← hr, Text.trimStart, List.takeWhile_append_dropWhile, hsplit, Text.trimStart,
      List.takeWhile_append_dropWhile]
  refine ⟨line.takeWhile isBlank, key, r.takeWhile isBlank, by simpa using hline, ?_, hne,
    fun c hc => ?_, fun h => hmark (h.trans ⟨r, hsplit⟩)⟩
  · exact List.forall_mem_append.2
      ⟨fun c hc => List.mem_takeWhile_imp hc, fun c hc => List.mem_takeWhile_imp hc⟩
  · obtain ⟨hblank, hsign⟩ : isBlank c = false ∧ c ≠ '=' := by simpa using hkey c hc
    refine ⟨hblank, hsign, ?_⟩
    rintro rfl
    refine hcomment (Text.trimStart_subset line ?_)
    rw [← hsplit]
    exact List.mem_append_left r hc

theorem equation?_append_blanks (hpad : ∀ c ∈ pad, isBlank c = true) (hcomment : '#' ∉ line)
    (hmark : ¬ "<<".toList <+: Text.trimStart line) (hsign : pad ≠ [] → ¬ EndsInSign line) :
    equation? (line ++ pad) = equation? line := by
  rw [equation?, equation?, Text.trimStart_append_blanks hpad]
  split
  · next hnil => rw [hnil]
  rw [run?_append_of_not fun c hc => by simp [hpad c hc]]
  cases hrun : run? (fun c => !isBlank c && c != '=') (Text.trimStart line) with
  | none => rfl
  | some run =>
    obtain ⟨key, r⟩ := run
    simp only [Option.map_some, Option.bind_eq_bind, Option.bind_some,
      Text.trimStart_append_blanks hpad]
    split
    · next hnil => rw [hnil]
    by_cases heq : ['='] <+: Text.trimStart r
    · obtain ⟨value, hvalue⟩ := heq
      rw [← hvalue, List.append_assoc, Text.afterStart?_append, Text.afterStart?_append,
        Option.bind_some, Option.bind_some, Text.trim_append_blanks hpad]
      cases value with
      | cons c value => rfl
      | nil =>
        have hnil : pad = [] := by
          by_contra hne
          exact hsign hne (endsInSign_of_run? hrun hvalue.symm hcomment hmark)
        rw [hnil]
        rfl
    · rw [Text.afterStart?_eq_none_iff.2 heq, Text.afterStart?_eq_none_iff.2]
      rwa [prefix_append_blanks (List.forall_mem_singleton.2 rfl) hpad]

theorem pair?_append_blanks (hpad : ∀ c ∈ pad, isBlank c = true) :
    pair? (line ++ pad) = pair? line := by
  rw [pair?, pair?, Text.trimStart_append_blanks hpad]
  split
  · next hnil => rw [hnil]
  rw [run?_append_of_not fun c hc => by simp [hpad c hc]]
  cases run? (!isBlank ·) (Text.trimStart line) with
  | none => rfl
  | some run =>
    obtain ⟨key, r⟩ := run
    simp only [Option.map_some, Option.bind_eq_bind, Option.bind_some]
    cases r with
    | nil =>
      cases pad with
      | nil => rfl
      | cons c pad =>
        obtain ⟨hc, hpad⟩ := List.forall_mem_cons.1 hpad
        have hnil : Text.trimStart pad = [] := List.dropWhile_eq_nil_iff.2 hpad
        simp [afterBlanks?, hc, hnil]
    | cons c r =>
      rw [List.cons_append, afterBlanks?, afterBlanks?]
      split
      · rw [Option.bind_some, Option.bind_some, Text.trimStart_append_blanks hpad]
        split
        · next hnil => rw [hnil]
        · next hne =>
          obtain ⟨d, value, hvalue⟩ := List.exists_cons_of_ne_nil hne
          rw [Text.trim_append_blanks hpad, hvalue]
          rfl
      · rfl

/-- Blanks behind a line do not change its statement, unless it ends in the sign
of an assignment. -/
theorem ofBareLine_append_blanks (hpad : ∀ c ∈ pad, isBlank c = true) (hcomment : '#' ∉ line)
    (hsign : pad ≠ [] → ¬ EndsInSign line) : ofBareLine (line ++ pad) = ofBareLine line := by
  have htrim := Text.trim_append_blanks hpad line
  have hdir : ∀ word, directive? word (line ++ pad) = directive? word line := by
    intro word
    rw [directive?, htrim, directive?]
  have hclosing : closing? (line ++ pad) = closing? line := by rw [closing?, htrim, closing?]
  have hopening : opening? (line ++ pad) = opening? line := by rw [opening?, htrim, opening?]
  have hmark : "<<".toList <+: Text.trimStart (line ++ pad) ↔
      "<<".toList <+: Text.trimStart line := by
    rw [Text.trimStart_append_blanks hpad]
    split
    · next hnil => rw [hnil]
    · exact prefix_append_blanks (fun _ hc => eq_of_mem_mark hc ▸ rfl) hpad
  rw [ofBareLine, ofBareLine, includePath?, includePath?, includeCall?, includeCall?, hdir, hdir,
    htrim, hclosing, hopening]
  simp only [List.isPrefixOf_iff_prefix, hmark]
  by_cases hline : "<<".toList <+: Text.trimStart line
  · simp only [hline, if_true]
  · rw [assignment?, assignment?, equation?_append_blanks hpad hcomment hline hsign,
      pair?_append_blanks hpad]

end

/-! ### Comments behind a statement -/

/-- Blanks and a comment behind a line do not change its statement. -/
theorem ofLine_append_trailing {blanks comment line : Text} (h : Source.Trails blanks comment)
    (hsign : blanks ≠ [] → ¬ EndsInSign line) :
    ofLine (line ++ (blanks ++ comment)) = ofLine line := by
  by_cases hline : '#' ∈ line
  · obtain ⟨bare, rest, rfl, hbare⟩ := List.eq_append_cons_of_mem hline
    rw [ofLine, ofLine, bareLine, bareLine, List.append_assoc, List.cons_append,
      Text.cutAt_append hbare, Text.cutAt_append hbare]
  have hhash : '#' ∉ line ++ blanks := by
    simp only [List.mem_append, not_or]
    exact ⟨hline, fun hm => absurd (h.blanks _ hm) (by decide)⟩
  have hbare : bareLine (line ++ (blanks ++ comment)) = line ++ blanks := by
    rw [bareLine, ← List.append_assoc]
    rcases h.hash with rfl | hcomment
    · rw [List.append_nil, Text.cutAt_of_notMem hhash]
    · obtain ⟨note, rfl⟩ := List.head?_eq_some_iff.1 hcomment
      rw [Text.cutAt_append hhash]
  rw [ofLine, hbare, ofBareLine_append_blanks h.allBlank hline hsign, ofLine, bareLine,
    Text.cutAt_of_notMem hline]

end Statement

namespace Source

/-! ### Blanks and comments where lines are joined -/

/-- What has been begun at the end of a text and goes on behind it. -/
def leftOpen (t : Text) : Text := (begunAtEnd none (ofText t)).getD []

theorem continued?_append_blanks {pad : Text} (h : ∀ c ∈ pad, isBlank c = true) (t : Text) :
    continued? (t ++ pad) = continued? t := by
  rw [continued?, Text.trimEnd_append_blanks h, continued?]

theorem dropReturn_append {u : Text} (h : '\r' ∉ u) (v : Text) :
    dropReturn (u ++ v) = u ++ dropReturn v := by
  by_cases hv : v = []
  · subst hv
    rw [List.append_nil, dropReturn_of_notMem h]
    exact (List.append_nil u).symm
  · rw [dropReturn, dropReturn, List.getLast?_append_of_ne_nil u hv]
    split
    · exact List.dropLast_append_of_ne_nil hv
    · rfl

theorem trimEnd_dropReturn (l : Text) : Text.trimEnd (dropReturn l) = Text.trimEnd l := by
  rw [dropReturn]
  split
  · next hlast =>
    obtain ⟨body, rfl⟩ := List.getLast?_eq_some_iff.1 hlast
    rw [List.dropLast_concat, Text.trimEnd_append_blanks (List.forall_mem_singleton.2 rfl)]
  · rfl

section

variable {before line after blanks comment : Text}

theorem Trails.dropReturn (h : Trails blanks comment) : Trails blanks (dropReturn comment) where
  blanks := h.blanks
  hash := by
    rcases h.hash with rfl | hcomment
    · exact .inl rfl
    · obtain ⟨note, rfl⟩ := List.head?_eq_some_iff.1 hcomment
      exact .inr (congrArg List.head? (dropReturn_append (u := ['#']) (by decide) note))
  feed hm := by
    rw [Source.dropReturn] at hm
    split at hm
    · exact h.feed (List.dropLast_subset _ hm)
    · exact h.feed hm
  ending := by
    rw [GoesOn, trimEnd_dropReturn]
    exact h.ending

/-- A line goes on with blanks and a comment behind it only if it did so without. -/
theorem Trails.not_goesOn (h : Trails blanks comment) (hline : ¬ GoesOn line) :
    ¬ GoesOn (line ++ (blanks ++ comment)) := by
  rcases h.hash with rfl | hcomment
  · rwa [List.append_nil, goesOn_append_blanks h.allBlank]
  · have hne : Text.trimEnd comment ≠ [] := by
      obtain ⟨note, rfl⟩ := List.head?_eq_some_iff.1 hcomment
      rw [Text.trimEnd_cons (by decide)]
      exact List.cons_ne_nil _ _
    rw [← List.append_assoc, goesOn_append_of_ne_nil hne]
    exact h.ending

/-- Blanks and a comment behind a line change no statement. -/
theorem Trails.filterMap_joined (h : Trails blanks comment) {begun : Option Text}
    (hends : ¬ GoesOn line)
    (hopen : comment ≠ [] → (∀ c ∈ line, isBlank c = true) → ¬ GoesOn (begun.getD []))
    (hsign : blanks ≠ [] → ¬ Statement.EndsInSign (begun.getD [] ++ line)) (s : Source) :
    (joined begun (some (line ++ (blanks ++ comment)) :: s)).filterMap
        (Option.map Statement.ofLine) =
      (joined begun (some line :: s)).filterMap (Option.map Statement.ofLine) := by
  by_cases hon : GoesOn (begun.getD [] ++ line)
  · -- the line is blank and is joined to one that has been begun with two backslashes
    have hline : ∀ c ∈ line, isBlank c = true := by
      rw [← Text.trimEnd_eq_nil_iff]
      by_contra hne
      exact hends ((goesOn_append_of_ne_nil hne _).1 hon)
    obtain rfl : comment = [] := by
      by_contra hne
      exact hopen hne hline ((goesOn_append_blanks hline _).1 hon)
    obtain ⟨text, htext⟩ := Option.ne_none_iff_exists'.1 fun hno => continued?_eq_none_iff.1 hno hon
    rw [joined, joined, List.append_nil, ← List.append_assoc, continued?_append_blanks h.allBlank,
      htext]
  · have hon' := h.not_goesOn hon
    rw [List.append_assoc] at hon'
    rw [joined_of_not_goesOn hon, joined_of_not_goesOn hon', List.filterMap_cons,
      List.filterMap_cons, Option.map_some, Option.map_some, ← List.append_assoc,
      Statement.ofLine_append_trailing h hsign]

/-! ### Blanks and comments in a text -/

theorem IsLine.ofText_append (h : IsLine before line after) (u : Text) :
    ofText (before ++ u) = ofText before ++ ofText u := by
  rcases h.start with rfl | hlast
  · rfl
  · exact Source.ofText_append hlast u

/-- The line of a text, with what is put behind it, and without. -/
theorem IsLine.exists_ofText (h : IsLine before line after) (hreturn : '\r' ∉ line)
    (ht : Trails blanks comment) : ∃ comment' rest, Trails blanks comment' ∧
      (comment' ≠ [] → comment ≠ []) ∧ ofText (line ++ after) = some line :: rest ∧
      ofText (line ++ (blanks ++ (comment ++ after))) =
        some (line ++ (blanks ++ comment')) :: rest := by
  have hfeed : '\n' ∉ line ++ (blanks ++ comment) := by
    simp only [List.mem_append, not_or]
    exact ⟨h.feed, fun hm => absurd (ht.blanks _ hm) (by decide), ht.feed⟩
  rcases h.ending with ⟨rfl, hne⟩ | hafter
  · refine ⟨comment, [], ht, id, ?_, ?_⟩
    · rw [List.append_nil, ofText_last h.feed hne]
    · rw [List.append_nil, ofText_last hfeed (by simp [hne])]
  · obtain ⟨rest, rfl⟩ := List.head?_eq_some_iff.1 hafter
    refine ⟨dropReturn comment, ofText rest, ht.dropReturn, ?_, ?_, ?_⟩
    · rintro hne rfl
      exact hne rfl
    · rw [ofText_cons_line h.feed, dropReturn_of_notMem hreturn]
    · have hreturn : '\r' ∉ line ++ blanks := by
        simp only [List.mem_append, not_or]
        exact ⟨hreturn, fun hm => absurd (ht.blanks _ hm) (by decide)⟩
      rw [← List.append_assoc, ← List.append_assoc, ofText_cons_line (by simpa using hfeed),
        dropReturn_append hreturn, List.append_assoc]

end

end Source

section

variable {before line after blanks comment : Text}

theorem Statement.spoken_trailing (h : Source.IsLine before line after) (hreturn : '\r' ∉ line)
    (hends : ¬ Source.GoesOn line) (ht : Source.Trails blanks comment)
    (hopen : comment ≠ [] → (∀ c ∈ line, isBlank c = true) →
      ¬ Source.GoesOn (Source.leftOpen before))
    (hsign : blanks ≠ [] → ¬ EndsInSign (Source.leftOpen before ++ line)) :
    spoken (before ++ line ++ blanks ++ comment ++ after) = spoken (before ++ line ++ after) := by
  obtain ⟨done, hdone⟩ := Source.exists_joined_append none (Source.none_notMem_ofText before)
  obtain ⟨comment', rest, ht', hne, hline, htrailing⟩ := h.exists_ofText hreturn ht
  simp only [spoken_eq, List.append_assoc, h.ofText_append, hdone, List.filterMap_append, hline,
    htrailing]
  rw [ht'.filterMap_joined hends (fun hc => hopen (hne hc)) hsign]

namespace Reader

/-- **Blanks and comments behind a line change nothing.**  Spaces and tabs behind a
line of a text that does not go on in the next one, and behind them a comment that
does not, change neither whether the text can be read nor the document it makes,
whatever files and include functions there are.  This leaves out two lines: a blank
one that is joined to what goes on, with a comment in it, and a key with an equals
sign and nothing behind it, with blanks. -/
theorem parseText_trailing (r : Reader) (h : Source.IsLine before line after)
    (hreturn : '\r' ∉ line) (hends : ¬ Source.GoesOn line) (ht : Source.Trails blanks comment)
    (hopen : comment ≠ [] → (∀ c ∈ line, isBlank c = true) →
      ¬ Source.GoesOn (Source.leftOpen before))
    (hsign : blanks ≠ [] → ¬ Statement.EndsInSign (Source.leftOpen before ++ line)) (d : Document) :
    (r.parseText (before ++ line ++ blanks ++ comment ++ after)).result = .ok d ↔
      (r.parseText (before ++ line ++ after)).result = .ok d :=
  r.parseText_congr (Statement.spoken_trailing h hreturn hends ht hopen hsign) d

/-- A comment with a carriage return at its end, in a section, behind a line that
is joined to the one in front of it. -/
theorem parseText_trailing_joined :
    let r : Reader := {}
    let before := "<s>\na b \\\n".toList
    let line := " c".toList
    let after := "\n</s>".toList
    let d : Document := .ofList [
      ("s".toList, .nested (.ofList [("a".toList, .scalar "b  c".toList)]))]
    (r.parseText (before ++ line ++ ['\t', ' '] ++ "# \\ <x>\r".toList ++ after)).result =
      .ok d := by
  intro r before line after d
  have ht : Source.Trails ['\t', ' '] "# \\ <x>\r".toList :=
    ⟨by simp, by decide, by decide, by decide⟩
  have hopen : ¬ ∀ ch ∈ line, isBlank ch = true :=
    fun h => absurd (h 'c' (by decide)) (by decide)
  have hsign : ¬ Statement.EndsInSign (Source.leftOpen before ++ line) :=
    fun h => absurd h.getLast? (by decide)
  exact (r.parseText_trailing ⟨by decide, by decide, by decide⟩ (by decide) (by decide) ht
    (fun _ h => absurd h hopen) (fun _ => hsign) d).2 (by rfl)

/-- What is left out: a comment that ends in a backslash and a blank, a comment in a
blank line that is joined to what ends in a backslash, a blank behind an equals
sign. -/
theorem exists_trailing_ne :
    let places : List (Text × Text × Text × Text × Text) := [
      ([], "a = b".toList, "\nc = d\n".toList, [' '], "# x\\ ".toList),
      ("x = a\\\\\\\n\n".toList, [], "\nb = c\n".toList, [' '], "# n".toList),
      ([], "k =".toList, "\n".toList, [' '], [])]
    ∀ place ∈ places, match place with
      | (before, line, after, blanks, comment) =>
        Source.IsLine before line after ∧ '\r' ∉ before ++ line ++ after ∧ ¬ Source.GoesOn line ∧
        (∀ above ∈ (Source.ofText before).getLast?.join, ¬ Source.GoesOn above) ∧
        (∀ c ∈ blanks, c = ' ' ∨ c = '\t') ∧ (comment = [] ∨ comment.head? = some '#') ∧
        '\n' ∉ comment ∧ comment.getLast? ≠ some '\\' ∧
        ∃ d d', (({} : Reader).parseText (before ++ line ++ after)).result = .ok d ∧
          (({} : Reader).parseText (before ++ line ++ blanks ++ comment ++ after)).result =
            .ok d' ∧ d ≠ d' := by
  intro places place hplace
  simp only [places, List.mem_cons, List.not_mem_nil, or_false] at hplace
  rcases hplace with rfl | rfl | rfl
  · exact ⟨⟨by decide, by decide, by decide⟩, by decide, by decide, by decide, by simp,
      by decide, by decide, by decide,
      .ofList [("a".toList, .scalar "b".toList), ("c".toList, .scalar "d".toList)],
      .ofList [("a".toList, .scalar "b".toList)], by rfl, by rfl, by decide⟩
  · exact ⟨⟨by decide, by decide, by decide⟩, by decide, by decide, by decide, by simp,
      by decide, by decide, by decide,
      .ofList [("x".toList, .scalar "ab = c".toList)],
      .ofList [("x".toList, .scalar "a\\".toList), ("b".toList, .scalar "c".toList)],
      by rfl, by rfl, by decide⟩
  · exact ⟨⟨by decide, by decide, by decide⟩, by decide, by decide, by decide, by simp,
      by decide, by decide, by decide,
      .empty, .ofList [("k".toList, .scalar [])], by rfl, by rfl, by decide⟩

end Reader

end

end Wcl
