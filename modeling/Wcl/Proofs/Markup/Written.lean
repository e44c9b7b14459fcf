import Wcl.Document.Writer
import Wcl.Proofs.Markup.Run

/-!
# Written lines

The lines that are written for entries, read back.  A line that ends in a
character that is neither a blank nor a backslash stands alone
(`Source.Alone`): it is cut out of the text as it is and does not go on in the
next one.  So the statements of a text of such lines are the statements of its
lines (`Statement.ofText_lines`).

The opening and closing line of a section with a plain name
(`SectionKey`), and the line of a scalar whose key and text hold nothing that
the reader cuts at (`ScalarPair`), are read as what they were written for,
however far from the left they begin.  A key that does not begin like a section
(`ScalarKey`) goes with every text (`ScalarText`).
-/

namespace Wcl

/-! ### Lines that stand alone -/

namespace Source

/-- A line that is read as it stands. -/
structure Alone (l : Text) : Prop where
  feed : '\n' ∉ l
  ending : ∃ body c, l = body ++ [c] ∧ isBlank c = false ∧ c ≠ '\\'

theorem Alone.dropReturn_eq {l : Text} (h : Alone l) : dropReturn l = l := by
  obtain ⟨body, c, rfl, hb, _⟩ := h.ending
  have hc : c ≠ '\r' := by
    rintro rfl
    cases hb
  simp [dropReturn, hc]

theorem Alone.continued?_eq {l : Text} (h : Alone l) : continued? l = none := by
  obtain ⟨body, c, rfl, hb, hc⟩ := h.ending
  rw [continued?, Text.trimEnd_concat hb, List.reverse_append]
  split
  · next r hr =>
    simp only [List.reverse_cons, List.reverse_nil, List.nil_append, List.cons_append,
      List.cons.injEq] at hr
    exact absurd hr.1 hc
  · rfl

theorem Alone.append {pad l : Text} (h : Alone l) (hp : ∀ c ∈ pad, c = ' ') :
    Alone (pad ++ l) where
  feed := by
    have hpad : '\n' ∉ pad := fun hm => absurd (hp _ hm) (by decide)
    simp [hpad, h.feed]
  ending := by
    obtain ⟨body, c, rfl, hc⟩ := h.ending
    exact ⟨pad ++ body, c, by simp, hc⟩

theorem ofText_lines {ls : List Text} (h : ∀ l ∈ ls, Alone l) :
    ofText (ls.flatMap (· ++ ['\n'])) = ls.map some := by
  induction ls with
  | nil => rfl
  | cons l ls ih =>
    have hl := h l (List.mem_cons_self ..)
    have hrest := ih fun l hm => h l (List.mem_cons_of_mem _ hm)
    rw [ofText] at hrest
    rw [ofText, List.flatMap_cons, List.append_assoc, List.singleton_append,
      List.splitOn_append_cons_self_of_not_mem hl.feed, ofPieces, hrest, hl.dropReturn_eq,
      List.map_cons]
    exact List.splitOn_ne_nil _ _

end Source

theorem Statement.ofLines_joinFrom {ls : List Text} (h : ∀ l ∈ ls, Source.Alone l) (number : Nat) :
    ofLines (Source.joinFrom number none (ls.map some)) = ls.map ofLine := by
  induction ls generalizing number with
  | nil => rfl
  | cons l ls ih =>
    have hl := h l (List.mem_cons_self ..)
    have hrest := ih (fun l hm => h l (List.mem_cons_of_mem _ hm)) (number + 1)
    rw [List.map_cons, Source.joinFrom]
    simp only [Option.map_none, Option.getD_none, List.nil_append, hl.continued?_eq]
    exact congrArg (ofLine l :: ·) hrest

/-- A text of lines that stand alone has the statements of its lines. -/
theorem Statement.ofText_lines {ls : List Text} (h : ∀ l ∈ ls, Source.Alone l) :
    ofText (ls.flatMap (· ++ ['\n'])) = ls.map ofLine := by
  rw [ofText, Source.ofText_lines h]
  exact ofLines_joinFrom h 1

/-! ### Blanks in front of a line -/

namespace Statement

theorem run?_append {p : Char → Bool} {s r : Text} (hs : ∀ c ∈ s, p c = true)
    (hne : s ≠ []) (hr : ∀ c ∈ r.head?, p c = false) :
    run? p (s ++ r) = some (s, r) := by
  have hstop : r.takeWhile p = [] ∧ r.dropWhile p = r := by
    cases r with
    | nil => exact ⟨rfl, rfl⟩
    | cons c r => simp [hr c rfl]
  rw [run?, List.takeWhile_append_of_pos hs, List.dropWhile_append_of_pos hs, hstop.1,
    hstop.2, List.append_nil]
  cases s with
  | nil => exact absurd rfl hne
  | cons c r => rfl

theorem ofBareLine_append {pad : Text} (h : ∀ c ∈ pad, isBlank c = true) (line : Text) :
    ofBareLine (pad ++ line) = ofBareLine line := by
  have htrim := Text.trim_append h line
  have hstart := Text.trimStart_append h line
  have hdir : ∀ word, directive? word (pad ++ line) = directive? word line := by
    intro word
    rw [directive?, htrim, directive?]
  have hclosing : closing? (pad ++ line) = closing? line := by rw [closing?, htrim, closing?]
  have hopening : opening? (pad ++ line) = opening? line := by rw [opening?, htrim, opening?]
  have hassign : assignment? (pad ++ line) = assignment? line := by
    rw [assignment?, equation?, pair?, hstart, assignment?, equation?, pair?]
  rw [ofBareLine, includePath?, includeCall?, hdir, hdir, htrim, hstart, hclosing, hopening,
    hassign]
  rfl

end Statement

/-! ### The lines of entries -/

/-- A name that a section can be written under. -/
structure SectionKey (k : Text) : Prop where
  ne_nil : k ≠ []
  clean : ∀ c ∈ k, isBlank c = false ∧ c ≠ '<' ∧ c ≠ '>' ∧ c ≠ '/' ∧ c ≠ '#'
  lower : Text.lowerCase k = k

/-- A key that a scalar can be written under, where keys keep their case or
where they do not. -/
structure ScalarKey (keeps : Bool) (k : Text) : Prop where
  ne_nil : k ≠ []
  clean : ∀ c ∈ k, isBlank c = false ∧ c ≠ '=' ∧ c ≠ '#'
  first : k.head? ≠ some '<'
  lower : keeps = false → Text.lowerCase k = k

/-- A text that can be written behind a key. -/
structure ScalarText (t : Text) : Prop where
  ne_nil : t ≠ []
  trim : Text.trim t = t
  clean : ∀ c ∈ t, c ≠ '#' ∧ c ≠ '\n'
  last : t.getLast? ≠ some '\\'

-- The characters of the text alone are looked at, not all that there are.
instance (k : Text) : Decidable (SectionKey k) :=
  have := List.decidableBAll
    (fun c => isBlank c = false ∧ c ≠ '<' ∧ c ≠ '>' ∧ c ≠ '/' ∧ c ≠ '#') k
  decidable_of_iff
    (k ≠ [] ∧ (∀ c ∈ k, isBlank c = false ∧ c ≠ '<' ∧ c ≠ '>' ∧ c ≠ '/' ∧ c ≠ '#') ∧
      Text.lowerCase k = k)
    ⟨fun ⟨h₁, h₂, h₃⟩ => ⟨h₁, h₂, h₃⟩, fun h => ⟨h.ne_nil, h.clean, h.lower⟩⟩

instance (keeps : Bool) (k : Text) : Decidable (ScalarKey keeps k) :=
  have := List.decidableBAll (fun c => isBlank c = false ∧ c ≠ '=' ∧ c ≠ '#') k
  decidable_of_iff
    (k ≠ [] ∧ (∀ c ∈ k, isBlank c = false ∧ c ≠ '=' ∧ c ≠ '#') ∧ k.head? ≠ some '<' ∧
      (keeps = false → Text.lowerCase k = k))
    ⟨fun ⟨h₁, h₂, h₃, h₄⟩ => ⟨h₁, h₂, h₃, h₄⟩, fun h => ⟨h.ne_nil, h.clean, h.first, h.lower⟩⟩

instance (t : Text) : Decidable (ScalarText t) :=
  have := List.decidableBAll (fun c => c ≠ '#' ∧ c ≠ '\n') t
  decidable_of_iff
    (t ≠ [] ∧ Text.trim t = t ∧ (∀ c ∈ t, c ≠ '#' ∧ c ≠ '\n') ∧ t.getLast? ≠ some '\\')
    ⟨fun ⟨h₁, h₂, h₃, h₄⟩ => ⟨h₁, h₂, h₃, h₄⟩, fun h => ⟨h.ne_nil, h.trim, h.clean, h.last⟩⟩

/-- The line that opens a section. -/
def openingLine (k : Text) : Text := '<' :: k ++ ['>']

/-- The line that closes a section. -/
def closingLine (k : Text) : Text := '<' :: '/' :: k ++ ['>']

/-- The line of a scalar. -/
def scalarLine (k t : Text) : Text := k ++ " = ".toList ++ t

/-- A key and a text whose line is an assignment. -/
structure ScalarPair (k t : Text) : Prop where
  ne_nil : k ≠ []
  clean : ∀ c ∈ k, isBlank c = false ∧ c ≠ '=' ∧ c ≠ '#'
  directive : ¬ "<<".toList <+: k
  text : ScalarText t
  closing : Statement.closing? (scalarLine k t) = none
  opening : Statement.opening? (scalarLine k t) = none

theorem SectionKey.exists_cons {k : Text} (h : SectionKey k) :
    ∃ c r, k = c :: r ∧ isBlank c = false ∧ c ≠ '<' ∧ c ≠ '/' := by
  obtain ⟨c, r, rfl⟩ := List.exists_cons_of_ne_nil h.ne_nil
  have hc := h.clean c (List.mem_cons_self ..)
  exact ⟨c, r, rfl, hc.1, hc.2.1, hc.2.2.2.1⟩

theorem ScalarText.exists_concat {t : Text} (h : ScalarText t) :
    ∃ body c, t = body ++ [c] ∧ isBlank c = false ∧ c ≠ '\\' := by
  have hblank := (Text.tight_of_trim_eq h.trim).last
  have hlast := h.last
  rcases List.eq_nil_or_concat' t with rfl | ⟨body, c, rfl⟩
  · exact absurd rfl h.ne_nil
  · rw [List.getLast?_concat] at hblank hlast
    exact ⟨body, c, rfl, hblank c rfl, fun hc => hlast (congrArg some hc)⟩

theorem SectionKey.alone_openingLine {k : Text} (h : SectionKey k) :
    Source.Alone (openingLine k) where
  feed := by
    have hk : '\n' ∉ k := fun hm => by cases (h.clean _ hm).1
    simp [openingLine, hk]
  ending := ⟨'<' :: k, '>', rfl, rfl, by decide⟩

theorem SectionKey.alone_closingLine {k : Text} (h : SectionKey k) :
    Source.Alone (closingLine k) where
  feed := by
    have hk : '\n' ∉ k := fun hm => by cases (h.clean _ hm).1
    simp [closingLine, hk]
  ending := ⟨'<' :: '/' :: k, '>', rfl, rfl, by decide⟩

namespace ScalarPair

variable {k t : Text}

/-- The line of a scalar begins with its key. -/
theorem exists_cons (h : ScalarPair k t) :
    ∃ c r, k = c :: r ∧ scalarLine k t = c :: (r ++ " = ".toList ++ t) ∧ isBlank c = false := by
  obtain ⟨c, r, rfl⟩ := List.exists_cons_of_ne_nil h.ne_nil
  exact ⟨c, r, rfl, by simp [scalarLine], (h.clean c (List.mem_cons_self ..)).1⟩

theorem trim_scalarLine (h : ScalarPair k t) : Text.trim (scalarLine k t) = scalarLine k t := by
  obtain ⟨c, r, _, hfirst, hc⟩ := h.exists_cons
  obtain ⟨body, d, htd, hd, _⟩ := h.text.exists_concat
  have heq : scalarLine k t = c :: (r ++ " = ".toList ++ body ++ [d]) := by
    rw [hfirst, htd]
    simp
  rw [heq]
  exact (Text.tight_cons_concat hc hd (r ++ " = ".toList ++ body)).trim_eq

theorem alone_scalarLine (h : ScalarPair k t) : Source.Alone (scalarLine k t) where
  feed := by
    have hkey : '\n' ∉ k := fun hm => by cases (h.clean _ hm).1
    have htext : '\n' ∉ t := fun hm => (h.text.clean _ hm).2 rfl
    simp [scalarLine, hkey, htext]
  ending := by
    obtain ⟨body, c, htc, hb, hc⟩ := h.text.exists_concat
    exact ⟨k ++ " = ".toList ++ body, c, by simp [scalarLine, htc], hb, hc⟩

/-- Behind a single bracket comes the equals sign, so the mark of a directive is
in the key. -/
theorem not_directive (h : ScalarPair k t) : ¬ "<<".toList <+: scalarLine k t := by
  obtain ⟨c, r, rfl, hfirst, _⟩ := h.exists_cons
  rw [hfirst]
  intro hmark
  obtain ⟨hc, hmark⟩ : '<' = c ∧ ['<'] <+: r ++ " = ".toList ++ t := List.cons_prefix_cons.1 hmark
  cases r with
  | nil => exact absurd (List.cons_prefix_cons.1 hmark).1 (by decide)
  | cons d r =>
    have hd : '<' = d := (List.cons_prefix_cons.1 hmark).1
    exact h.directive ⟨r, by rw [← hc, ← hd]; rfl⟩

end ScalarPair

/-- The line of a key that does not begin like a section is no line of one. -/
theorem ScalarKey.scalarPair {keeps : Bool} {k t : Text} (hk : ScalarKey keeps k)
    (ht : ScalarText t) : ScalarPair k t := by
  obtain ⟨c, r, rfl⟩ := List.exists_cons_of_ne_nil hk.ne_nil
  have hlt : c ≠ '<' := fun he => hk.first (congrArg some he)
  have hc := (hk.clean c (List.mem_cons_self ..)).1
  obtain ⟨s, htrim⟩ : ∃ s, Text.trim (scalarLine (c :: r) t) = c :: s :=
    ⟨_, by rw [Text.trim, scalarLine, List.append_assoc, List.cons_append, Text.trimStart_cons hc,
      Text.trimEnd_cons hc]⟩
  have hmark : ∀ start : Text, start.head? = some '<' → ¬ start <+: c :: s := by
    rintro start hs ⟨u, hu⟩
    cases start with
    | nil => cases hs
    | cons x start =>
      obtain rfl : x = '<' := Option.some.inj hs
      exact hlt (List.cons.inj hu).1.symm
  refine ⟨hk.ne_nil, hk.clean, fun hd => hlt (List.cons_prefix_cons.1 hd).1.symm, ht, ?_, ?_⟩
  · rw [Statement.closing?, htrim, Text.afterStart?_eq_none_iff.2 (hmark _ rfl)]
    rfl
  · rw [Statement.opening?, htrim, Text.afterStart?_eq_none_iff.2 (hmark _ rfl)]
    rfl

namespace Statement

theorem ofLine_append {pad line : Text} (hp : ∀ c ∈ pad, c = ' ') (h : '#' ∉ line) :
    ofLine (pad ++ line) = ofBareLine line := by
  have hpad : '#' ∉ pad := fun hm => absurd (hp _ hm) (by decide)
  have hline : bareLine (pad ++ line) = pad ++ line := by
    rw [bareLine, Text.cutAt_of_notMem (by simp [hpad, h])]
  rw [ofLine, hline, ofBareLine_append fun c hc => by rw [hp c hc]; rfl]

theorem ofLine_openingLine {k pad : Text} (h : SectionKey k) (hp : ∀ c ∈ pad, c = ' ') :
    ofLine (pad ++ openingLine k) = .opening k none := by
  have hhash : '#' ∉ openingLine k := by
    have hk : '#' ∉ k := fun hm => (h.clean _ hm).2.2.2.2 rfl
    simp [openingLine, hk]
  obtain ⟨c, r, hk, hc, hlt, hslash⟩ := h.exists_cons
  have htrim : Text.trim (openingLine k) = '<' :: (k ++ ['>']) :=
    (Text.tight_cons_concat rfl rfl k).trim_eq
  have hclosing : closing? (openingLine k) = none := by
    have hmark : ¬ "</".toList <+: '<' :: (k ++ ['>']) := by
      rw [hk]
      simp [Ne.symm hslash]
    rw [closing?, htrim, Text.afterStart?_eq_none_iff.2 hmark]
    rfl
  have hopening : opening? (openingLine k) = some (k, none) := by
    have hrun := run?_append (p := fun c => !isBlank c && c != '<' && c != '>' && c != '/')
      (s := k) (r := ['>']) (by simpa [and_assoc] using fun c hc => ⟨(h.clean c hc).1,
        (h.clean c hc).2.1, (h.clean c hc).2.2.1, (h.clean c hc).2.2.2.1⟩) h.ne_nil (by simp)
    have hstart : Text.trimStart (k ++ ['>']) = k ++ ['>'] := by
      rw [hk]
      exact Text.trimStart_cons hc _
    have hmark : Text.afterStart? ['<'] ('<' :: (k ++ ['>'])) = some (k ++ ['>']) :=
      Text.afterStart?_append ['<'] _
    rw [opening?, htrim, hmark, Option.bind_eq_bind, Option.bind_some, hstart, hrun]
    rfl
  rw [ofLine_append hp hhash, ofBareLine_eq, hclosing, hopening]
  · rw [htrim]
    simp
  · rw [htrim, hk]
    simp [Ne.symm hlt]

theorem ofLine_closingLine {k pad : Text} (h : SectionKey k) (hp : ∀ c ∈ pad, c = ' ') :
    ofLine (pad ++ closingLine k) = .closing k := by
  have hhash : '#' ∉ closingLine k := by
    have hk : '#' ∉ k := fun hm => (h.clean _ hm).2.2.2.2 rfl
    simp [closingLine, hk]
  obtain ⟨c, r, hk, hc, _, _⟩ := h.exists_cons
  have htrim : Text.trim (closingLine k) = '<' :: '/' :: (k ++ ['>']) :=
    (Text.tight_cons_concat rfl rfl ('/' :: k)).trim_eq
  have hclosing : closing? (closingLine k) = some k := by
    have hrun := run?_append (p := fun c => !isBlank c && c != '<' && c != '>')
      (s := k) (r := ['>']) (by simpa [and_assoc] using fun c hc => ⟨(h.clean c hc).1,
        (h.clean c hc).2.1, (h.clean c hc).2.2.1⟩) h.ne_nil (by simp)
    have hstart : Text.trimStart (k ++ ['>']) = k ++ ['>'] := by
      rw [hk]
      exact Text.trimStart_cons hc _
    have hmark : Text.afterStart? "</".toList ('<' :: '/' :: (k ++ ['>'])) = some (k ++ ['>']) :=
      Text.afterStart?_append "</".toList _
    rw [closing?, htrim, hmark, Option.bind_eq_bind, Option.bind_some, hstart, hrun]
    rfl
  rw [ofLine_append hp hhash, ofBareLine_eq, hclosing]
  · rw [htrim]
    simp
  · rw [htrim]
    simp

theorem assignment?_scalarLine {k t : Text} (h : ScalarPair k t) :
    assignment? (scalarLine k t) = some (k, t) := by
  have hrun := run?_append (p := fun c => !isBlank c && c != '=') (s := k)
    (r := " = ".toList ++ t) (by simpa using fun c hc => ⟨(h.clean c hc).1,
      (h.clean c hc).2.1⟩) h.ne_nil (by simp; decide)
  have hstart : Text.trimStart (scalarLine k t) = k ++ (" = ".toList ++ t) := by
    obtain ⟨c, r, _, hfirst, hc⟩ := h.exists_cons
    rw [hfirst, Text.trimStart_cons hc, ← hfirst, scalarLine, List.append_assoc]
  have hblank : ∀ c ∈ [' '], isBlank c = true := List.forall_mem_singleton.2 rfl
  have hequals : Text.trimStart (" = ".toList ++ t) = ['='] ++ ' ' :: t :=
    (Text.trimStart_append hblank ('=' :: ' ' :: t)).trans (Text.trimStart_cons rfl _)
  have hvalue : Text.trim (' ' :: t) = t := (Text.trim_append hblank t).trans h.text.trim
  have hequation : equation? (scalarLine k t) = some (k, t) := by
    rw [equation?, hstart, hrun, Option.bind_eq_bind, Option.bind_some]
    dsimp only
    rw [hequals, Text.afterStart?_append, Option.bind_eq_bind, Option.bind_some, hvalue]
    rfl
  rw [assignment?, hequation, Option.some_or]

theorem ofLine_scalarLine {k t pad : Text} (h : ScalarPair k t) (hp : ∀ c ∈ pad, c = ' ') :
    ofLine (pad ++ scalarLine k t) = .assignment k t := by
  have hhash : '#' ∉ scalarLine k t := by
    have hkey : '#' ∉ k := fun hm => (h.clean _ hm).2.2 rfl
    have htext : '#' ∉ t := fun hm => (h.text.clean _ hm).1 rfl
    simp [scalarLine, hkey, htext]
  rw [ofLine_append hp hhash, ofBareLine_eq, h.closing, h.opening, assignment?_scalarLine h]
  · rw [h.trim_scalarLine]
    obtain ⟨c, r, _, hfirst, _⟩ := h.exists_cons
    rw [hfirst]
    exact List.cons_ne_nil _ _
  · rw [h.trim_scalarLine]
    exact h.not_directive

end Statement

end Wcl
