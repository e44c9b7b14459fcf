import Wcl.Proofs.Markup.Built
import Wcl.Proofs.Markup.Lines
import Wcl.Proofs.Text.LowerCase

/-!
# What a line can say

The tag, the label, the key and the value of a statement are cut out of a line
without its comment, so they have neither hashes nor line feeds, and names have
no blanks (`TagText`, `Assignable`).  Lower case puts none of these signs in.

So every statement of a text without directives inserts nothing but such names
and values (`Statement.inserts_ofText`), and a document that has been read has
no others (`Reader.every_of_parseText`).
-/

namespace Wcl

/-! ### Names and values -/

/-- A name that a section can be opened under, as a tag or as a label. -/
structure TagText (k : Text) : Prop where
  ne_nil : k ≠ []
  clean : ∀ c ∈ k, isBlank c = false ∧ c ≠ '<' ∧ c ≠ '>' ∧ c ≠ '#'

/-- A key and a value that can be assigned. -/
structure Assignable (k t : Text) : Prop where
  ne_nil : k ≠ []
  clean : ∀ c ∈ k, isBlank c = false ∧ c ≠ '#'
  directive : ¬ "<<".toList <+: k
  trim : Text.trim t = t
  text : ∀ c ∈ t, c ≠ '#' ∧ c ≠ '\n'

/-- A character of a text in lower case that is a sign is in the text itself. -/
theorem clean_lowerCase {k : Text} {p : Char → Prop} (hp : ∀ c, Text.isSign c = false → p c)
    (h : ∀ c ∈ k, p c) : ∀ c ∈ Text.lowerCase k, p c := by
  intro c hc
  cases hs : Text.isSign c with
  | false => exact hp c hs
  | true => exact h c (Text.mem_of_mem_lowerFrom hs hc)

theorem TagText.lowerCase {k : Text} (h : TagText k) : TagText (Text.lowerCase k) where
  ne_nil := fun he => h.ne_nil (Text.lowerFrom_eq_nil he)
  clean := by
    refine clean_lowerCase (fun c hc => ?_) h.clean
    simp only [Text.isSign, Bool.or_eq_false_iff, beq_eq_false_iff_ne] at hc
    tauto

theorem Assignable.storedKey {k t : Text} (h : Assignable k t) (keeps : Bool) :
    Assignable (storedKey keeps k) t := by
  cases keeps with
  | true => exact h
  | false =>
    refine ⟨fun he => h.ne_nil (Text.lowerFrom_eq_nil he), ?_, fun hd => h.directive ?_, h.trim,
      h.text⟩
    · refine clean_lowerCase (fun c hc => ?_) h.clean
      simp only [Text.isSign, Bool.or_eq_false_iff, beq_eq_false_iff_ne] at hc
      tauto
    · exact Text.prefix_of_prefix_lowerFrom (fun _ hc => Statement.eq_of_mem_mark hc ▸ rfl) hd

namespace Statement

variable {line tag key value : Text} {label : Option Text}

/-! ### Parts of a line -/

theorem run?_eq_some {p : Char → Bool} {t s r : Text} (h : run? p t = some (s, r)) :
    s ≠ [] ∧ (∀ c ∈ s, p c = true) ∧ s ++ r = t := by
  rw [run?] at h
  split at h
  · cases h
  · next hne =>
    cases h
    exact ⟨hne, fun c hc => List.mem_takeWhile_imp hc, List.takeWhile_append_dropWhile⟩

theorem afterBlanks?_subset {t r : Text} (h : afterBlanks? t = some r) : r ⊆ t := by
  cases t with
  | nil => cases h
  | cons c t =>
    rw [afterBlanks?] at h
    split at h
    · cases h
      exact List.subset_cons_of_subset c (Text.trimStart_subset t)
    · cases h

theorem tagText_of_run? {p : Char → Bool}
    (hp : ∀ c, p c = true → isBlank c = false ∧ c ≠ '<' ∧ c ≠ '>') {t s r : Text}
    (h : run? p t = some (s, r)) (hhash : '#' ∉ t) : TagText s := by
  obtain ⟨hne, hs, rfl⟩ := run?_eq_some h
  refine ⟨hne, fun c hc => ?_⟩
  obtain ⟨hblank, hlt, hgt⟩ := hp c (hs c hc)
  refine ⟨hblank, hlt, hgt, ?_⟩
  rintro rfl
  exact hhash (List.mem_append_left _ hc)

theorem tagText_of_opening? (h : opening? line = some (tag, label)) (hhash : '#' ∉ line) :
    TagText tag ∧ ∀ l ∈ label, TagText l := by
  obtain ⟨r, hr, h⟩ := Option.bind_eq_some_iff.1 h
  obtain ⟨⟨tag', r'⟩, hrun, h⟩ := Option.bind_eq_some_iff.1 h
  have hafter : '#' ∉ Text.trimStart r := by
    intro hm
    have htrim := Text.afterStart?_eq_some_iff.1 hr
    refine hhash (Text.trim_subset line ?_)
    rw [htrim]
    exact List.mem_append_right _ (Text.trimStart_subset r hm)
  have htag := tagText_of_run? (by simp +contextual) hrun hafter
  obtain ⟨_, _, hsplit⟩ := run?_eq_some hrun
  dsimp only at h
  split at h
  · cases h
    exact ⟨htag, fun l hl => by cases hl⟩
  · obtain ⟨r'', hblanks, h⟩ := Option.bind_eq_some_iff.1 h
    obtain ⟨⟨label', rest⟩, hlabel, h⟩ := Option.bind_eq_some_iff.1 h
    have hbehind : '#' ∉ r'' := by
      intro hm
      rw [← hsplit] at hafter
      exact hafter (List.mem_append_right _ (afterBlanks?_subset hblanks hm))
    split at h
    · cases h
      refine ⟨htag, fun l hl => ?_⟩
      cases hl
      exact tagText_of_run? (by simp +contextual) hlabel hbehind
    · cases h

/-- A key begins its line, and the value is cut out of the rest. -/
structure KeyOf (line key raw : Text) : Prop where
  ne_nil : key ≠ []
  clean : ∀ c ∈ key, isBlank c = false
  start : key <+: Text.trimStart line
  value : raw ⊆ line

theorem keyOf_of_run? {p : Char → Bool} (hp : ∀ c, p c = true → isBlank c = false) {r raw : Text}
    (h : run? p (Text.trimStart line) = some (key, r)) (hraw : raw ⊆ r) : KeyOf line key raw := by
  obtain ⟨hne, hkey, hsplit⟩ := run?_eq_some h
  refine ⟨hne, fun c hc => hp c (hkey c hc), ⟨r, hsplit⟩, fun c hc => ?_⟩
  refine Text.trimStart_subset line ?_
  rw [← hsplit]
  exact List.mem_append_right _ (hraw hc)

theorem keyOf_of_assignment? (h : assignment? line = some (key, value)) :
    ∃ raw, value = Text.trim raw ∧ KeyOf line key raw := by
  rcases Option.or_eq_some_iff.1 h with h | ⟨_, h⟩
  · obtain ⟨⟨key', r⟩, hrun, h⟩ := Option.bind_eq_some_iff.1 h
    obtain ⟨raw, hraw, h⟩ := Option.bind_eq_some_iff.1 h
    split at h
    · cases h
    cases h
    refine ⟨raw, rfl, keyOf_of_run? (by simp +contextual) hrun fun c hc => ?_⟩
    refine Text.trimStart_subset r ?_
    rw [Text.afterStart?_eq_some_iff.1 hraw]
    exact List.mem_append_right _ hc
  · obtain ⟨⟨key', r⟩, hrun, h⟩ := Option.bind_eq_some_iff.1 h
    obtain ⟨raw, hraw, h⟩ := Option.bind_eq_some_iff.1 h
    split at h
    · cases h
    cases h
    exact ⟨raw, rfl, keyOf_of_run? (by simp) hrun (afterBlanks?_subset hraw)⟩

/-! ### Statements -/

theorem inserts_ofBareLine (hdir : ¬ "<<".toList <+: Text.trim line)
    (hclean : ∀ c ∈ line, c ≠ '#' ∧ c ≠ '\n') :
    (ofBareLine line).Inserts Assignable fun k => TagText k ∧ Text.lowerCase k = k := by
  have hhash : '#' ∉ line := fun hm => (hclean _ hm).1 rfl
  by_cases hne : Text.trim line = []
  · rw [ofBareLine, if_pos (List.isEmpty_iff.2 hne)]
    trivial
  rw [ofBareLine_eq hne hdir]
  cases closing? line with
  | some tag => trivial
  | none =>
    cases hopen : opening? line with
    | some parts =>
      obtain ⟨tag, label⟩ := parts
      obtain ⟨htag, hlabel⟩ := tagText_of_opening? hopen hhash
      exact ⟨⟨htag.lowerCase, Text.lowerCase_lowerCase tag⟩,
        fun l hl => ⟨(hlabel l hl).lowerCase, Text.lowerCase_lowerCase l⟩⟩
    | none =>
      cases hassign : assignment? line with
      | none => trivial
      | some parts =>
        obtain ⟨key, value⟩ := parts
        obtain ⟨raw, rfl, hkey⟩ := keyOf_of_assignment? hassign
        have hassignable : Assignable key (Text.trim raw) := {
          ne_nil := hkey.ne_nil
          clean := fun c hc => ⟨hkey.clean c hc,
            (hclean c (Text.trimStart_subset line (hkey.start.subset hc))).1⟩
          directive := fun hd => hdir (mark_prefix_trim (hd.trans hkey.start))
          trim := Text.trim_trim raw
          text := fun c hc => hclean c (hkey.value (Text.trim_subset raw hc)) }
        exact fun keeps => hassignable.storedKey keeps

/-- The statements of a text insert what lines can say. -/
theorem inserts_ofText {t : Text} (h : Source.Undirected t) :
    ∀ st ∈ ofText t, st.Inserts Assignable fun k => TagText k ∧ Text.lowerCase k = k := by
  intro st hst
  obtain ⟨line, hline, l, hl, rfl⟩ : ∃ line ∈ (Source.ofText t).logicalLines,
      ∃ l, line.2 = some l ∧ ofLine l = st := by
    simpa [ofText, ofLines] using hst
  refine inserts_ofBareLine (h line hline l hl) fun c hc => ⟨?_, ?_⟩
  · rintro rfl
    exact Text.notMem_cutAt '#' l hc
  · rintro rfl
    exact Source.feed_notMem_logicalLines hline hl (Text.cutAt_subset '#' l hc)

end Statement

/-- Names and values of a document that has been read are what lines can say. -/
theorem Reader.every_of_parseText {r : Reader} {t : Text} (h : Source.Undirected t)
    {d : Document} (hd : (r.parseText t).result = .ok d) :
    d.UniqueKeys ∧ d.searchOrder = [] ∧
      d.entries.Every Assignable fun k => TagText k ∧ Text.lowerCase k = k := by
  obtain ⟨b, hb, hst, rfl⟩ := exists_body_of_parseText h hd
  have hsaid := Statement.inserts_ofText h
  rw [← hst] at hsaid
  exact ⟨b.uniqueKeys_apply false trivial,
    b.apply_built (building_every _ _) hsaid false (building_every _ _).empty⟩

end Wcl
