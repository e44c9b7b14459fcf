import Wcl.Proofs.Markup.Legible
import Wcl.Proofs.Markup.Parts

/-!
# Writing what has been read

A document that has been read is written without its empty scalars
(`Document.write_pruned`), and reading the written form gives it back without
them: `Reader.parseText_write_parsed`.

Reading admits more than the written form can say, since a label may have a
slash and a key behind which blanks stand may begin with an equals sign or look
like the beginning of a section.  `Document.Rewritable` names what is left out,
and `Reader.exists_unwritable` has a text for each of its conditions.
-/

namespace Wcl

/-! ### Without empty scalars -/

/-- The entries without empty scalars, at every level. -/
def Entries.pruned : Entries → Entries
  | .nil => .nil
  | .scalar k t rest => if t = [] then rest.pruned else .scalar k t rest.pruned
  | .nested k order inner rest => .nested k order inner.pruned rest.pruned

/-- The document without empty scalars, at every level. -/
def Document.pruned (d : Document) : Document := { d with entries := d.entries.pruned }

namespace Entries

theorem pruned_scalar_of_ne_nil {t : Text} (h : t ≠ []) (k : Text) (rest : Entries) :
    (Entries.scalar k t rest).pruned = .scalar k t rest.pruned := if_neg h

theorem keys_pruned_subset (e : Entries) : e.pruned.keys ⊆ e.keys := by
  induction e with
  | nil => exact List.Subset.refl _
  | scalar k t rest ih =>
    rw [pruned]
    split
    · exact List.subset_cons_of_subset k ih
    · exact List.cons_subset_cons k ih
  | nested k order inner rest _ ih => exact List.cons_subset_cons k ih

theorem UniqueKeys.pruned {e : Entries} (h : e.UniqueKeys) : e.pruned.UniqueKeys := by
  induction e with
  | nil => trivial
  | scalar k t rest ih =>
    rw [Entries.pruned]
    split
    · exact ih h.2
    · exact ⟨fun hk => h.1 (rest.keys_pruned_subset hk), ih h.2⟩
  | nested k order inner rest ihi ih =>
    exact ⟨fun hk => h.1 (rest.keys_pruned_subset hk), ihi h.2.1, ih h.2.2⟩

/-- Empty scalars are not written. -/
theorem lines_pruned (indent margin : Nat) (e : Entries) :
    e.pruned.lines indent margin = e.lines indent margin := by
  induction e generalizing margin with
  | nil => rfl
  | scalar k t rest ih =>
    by_cases ht : t = []
    · subst ht
      rw [pruned, if_pos rfl, lines_scalar_nil, ih]
    · rw [pruned_scalar_of_ne_nil ht, lines_scalar ht, lines_scalar ht, ih]
  | nested k order inner rest ihi ih => rw [pruned, lines_nested, lines_nested, ihi, ih]

theorem keepsAfter_ofEntries_pruned (e : Entries) (keeps : Bool) :
    (Body.ofEntries e.pruned).keepsAfter keeps = (Body.ofEntries e).keepsAfter keeps := by
  induction e generalizing keeps with
  | nil => rfl
  | scalar k t rest ih =>
    rw [pruned]
    split
    · exact ih keeps
    · exact ih keeps
  | nested k order inner rest ihi ih =>
    rw [pruned, Body.ofEntries, Body.ofEntries, Body.keepsAfter, Body.keepsAfter]
    rw [ihi, ih]

end Entries

theorem Document.write_pruned (d : Document) (indent : Nat) :
    d.pruned.write false indent = d.write false indent :=
  congrArg (fun lines => lines.flatMap (· ++ ['\n'])) (d.entries.lines_pruned indent 0)

/-! ### What can be written again -/

/-- A key and a value whose line is an assignment, if they have been read. -/
structure ScalarRewritable (keeps : Bool) (k t : Text) : Prop where
  equals : '=' ∉ k
  spelling : storedKey keeps k = k
  last : t.getLast? ≠ some '\\'
  closing : Statement.closing? (scalarLine k t) = none
  opening : Statement.opening? (scalarLine k t) = none

/-- Entries whose lines can be read where they stand, if they have been read
before: inside a section of the given name, behind lines after which keys keep
their case or not. -/
def Entries.Rewritable : (enclosing : Option Text) → (keeps : Bool) → Entries → Prop
  | _, _, .nil => True
  | p, keeps, .scalar k t rest =>
    (t ≠ [] → ScalarRewritable keeps k t) ∧ rest.Rewritable p keeps
  | p, keeps, .nested k _ inner rest =>
    '/' ∉ k ∧ p ≠ some k ∧ inner.Rewritable (some k) (keepsOpened keeps k) ∧
      rest.Rewritable p (keepsClosed ((Body.ofEntries inner).keepsAfter (keepsOpened keeps k)) k)

/-- A document that can be written again after it has been read. -/
def Document.Rewritable (d : Document) : Prop := d.entries.Rewritable none false

instance (keeps : Bool) (k t : Text) : Decidable (ScalarRewritable keeps k t) :=
  decidable_of_iff
    ('=' ∉ k ∧ storedKey keeps k = k ∧ t.getLast? ≠ some '\\' ∧
      Statement.closing? (scalarLine k t) = none ∧ Statement.opening? (scalarLine k t) = none)
    ⟨fun ⟨h₁, h₂, h₃, h₄, h₅⟩ => ⟨h₁, h₂, h₃, h₄, h₅⟩,
      fun h => ⟨h.equals, h.spelling, h.last, h.closing, h.opening⟩⟩

instance Entries.decidableRewritable :
    (p : Option Text) → (keeps : Bool) → (e : Entries) → Decidable (e.Rewritable p keeps)
  | _, _, .nil => .isTrue trivial
  | p, keeps, .scalar _ _ rest =>
    have := decidableRewritable p keeps rest
    inferInstanceAs (Decidable (_ ∧ _))
  | p, keeps, .nested k _ inner rest =>
    have := decidableRewritable (some k) (keepsOpened keeps k) inner
    have := decidableRewritable p
      (keepsClosed ((Body.ofEntries inner).keepsAfter (keepsOpened keeps k)) k) rest
    inferInstanceAs (Decidable (_ ∧ _ ∧ _ ∧ _))

instance (d : Document) : Decidable d.Rewritable :=
  inferInstanceAs (Decidable (d.entries.Rewritable none false))

theorem ScalarRewritable.scalarPair {keeps : Bool} {k t : Text} (h : ScalarRewritable keeps k t)
    (hr : Assignable k t) (ht : t ≠ []) : ScalarPair k t where
  ne_nil := hr.ne_nil
  clean := fun c hc => ⟨(hr.clean c hc).1, fun he => h.equals (he ▸ hc), (hr.clean c hc).2⟩
  directive := hr.directive
  text := ⟨ht, hr.trim, hr.text, h.last⟩
  closing := h.closing
  opening := h.opening

theorem TagText.sectionKey {k : Text} (h : TagText k) (hlower : Text.lowerCase k = k)
    (hslash : '/' ∉ k) : SectionKey k where
  ne_nil := h.ne_nil
  clean := fun c hc => by
    obtain ⟨hblank, hlt, hgt, hhash⟩ := h.clean c hc
    exact ⟨hblank, hlt, hgt, fun he => hslash (he ▸ hc), hhash⟩
  lower := hlower

/-- Without empty scalars, such entries are read back where they stand. -/
theorem Entries.Rewritable.legible {p : Option Text} {keeps : Bool} {e : Entries}
    (h : e.Rewritable p keeps)
    (hr : e.Every Assignable fun k => TagText k ∧ Text.lowerCase k = k) :
    e.pruned.Legible p keeps := by
  induction e generalizing p keeps with
  | nil => trivial
  | scalar k t rest ih =>
    have hrest := ih h.2 hr.2
    by_cases ht : t = []
    · rwa [pruned, if_pos ht]
    · rw [pruned_scalar_of_ne_nil ht]
      exact ⟨(h.1 ht).scalarPair hr.1 ht, (h.1 ht).spelling, hrest⟩
  | nested k order inner rest ihi ih =>
    obtain ⟨hslash, hp, hinner, hrest⟩ := h
    obtain ⟨ho, ⟨htag, hlower⟩, hinnerRead, hrestRead⟩ := hr
    refine ⟨ho, htag.sectionKey hlower hslash, hp, ihi hinner hinnerRead, ?_⟩
    rw [keepsAfter_ofEntries_pruned]
    exact ih hrest hrestRead

/-- **Writing and reading again.**  What has been read is read again from its
written form, without its empty scalars. -/
theorem Reader.parseText_write_parsed (r : Reader) {t : Text} (h : Source.Undirected t)
    {d : Document} (hd : (r.parseText t).result = .ok d) (hw : d.Rewritable) (indent : Nat) :
    (r.parseText (d.write false indent)).result = .ok d.pruned := by
  obtain ⟨hu, ho, hread⟩ := every_of_parseText h hd
  rw [← d.write_pruned indent]
  exact r.parseText_write_of_legible (d := d.pruned) hu.pruned ho (hw.legible hread) indent

/-! ### Texts -/

/-- The document that statements without directives make, if they make one. -/
def Sections.document? (statements : List Statement) : Option Document :=
  (run statements {} >>= finished).toOption

theorem Reader.toOption_parseText (r : Reader) {t : Text}
    (h : ∀ s ∈ Statement.ofText t, s.isDirective = false) :
    (r.parseText t).result.toOption = Sections.document? (Statement.ofText t) := by
  obtain ⟨number, hresult⟩ := r.result_parseText h
  rw [hresult, Sections.document?]
  cases Sections.run (Statement.ofText t) {} >>= Sections.finished <;> rfl

theorem Reader.result_parseText_of_document? (r : Reader) {t : Text} (h : Source.Undirected t)
    {d : Document} (hd : Sections.document? (Statement.ofText t) = some d) :
    (r.parseText t).result = .ok d := by
  rw [← r.toOption_parseText (Statement.isDirective_ofText h)] at hd
  cases hresult : (r.parseText t).result with
  | error fault =>
    rw [hresult] at hd
    cases hd
  | ok d' =>
    rw [hresult] at hd
    cases hd
    rfl

/-- A label, a key in front of blanks and one that is kept as it is spelled, and
an empty scalar. -/
theorem Reader.parseText_write_again :
    let t := "<A b>\nX Y = 2\nE = \n</a>\n<cmdline>\n<In = </x>\n</cmdline>\n".toList
    let d : Document := .ofList [
      ("a".toList, .nested (.ofList [("b".toList, .nested (.ofList [
        ("x".toList, .scalar "Y = 2".toList), ("e".toList, .scalar [])]))])),
      ("cmdline".toList, .nested (.ofList [("<In".toList, .scalar "</x>".toList)]))]
    Source.Undirected t ∧ (({} : Reader).parseText t).result = .ok d ∧ d.Rewritable ∧
      (({} : Reader).parseText (d.write false 2)).result = .ok d.pruned ∧ d.pruned ≠ d := by
  intro t d
  have ht : Source.Undirected t := by decide
  have hd : (({} : Reader).parseText t).result = .ok d :=
    Reader.result_parseText_of_document? {} ht (by decide)
  have hw : d.Rewritable := by decide
  exact ⟨ht, hd, hw, parseText_write_parsed {} ht hd hw 2, by decide⟩

/-- Texts whose documents are not read again from what is written: a label with
a slash and one of the name of its section, keys that are read with a sign of
their own, a value that ends in a backslash, and a key that lost its case to a
section before it. -/
theorem Reader.exists_unwritable :
    let texts : List Text := ["<a b/c>\n</a>\n".toList, "<a a>\n</a>\n</a>\n".toList,
      "=x y\n".toList, "< /x>\n".toList, "</ >\n".toList, "k = a\\ # n\n".toList,
      "<cmdline>\n<replace>\n</replace>\n</cmdline>\n<cmdline>\nA = 1\n</cmdline>\n".toList]
    (∀ t ∈ texts, Source.Undirected t) ∧ ∀ t ∈ texts, ∃ d,
      (({} : Reader).parseText t).result = .ok d ∧
      (({} : Reader).parseText (d.write false 4)).result ≠ .ok d.pruned := by
  intro texts
  have hundirected : ∀ t ∈ texts, Source.Undirected t := by decide
  refine ⟨hundirected, fun t ht => ?_⟩
  have hlost : ∀ t ∈ texts, ∃ d ∈ Sections.document? (Statement.ofText t),
      (∀ s ∈ Statement.ofText (d.write false 4), s.isDirective = false) ∧
        Sections.document? (Statement.ofText (d.write false 4)) ≠ some d.pruned := by
    decide +kernel
  obtain ⟨d, hd, hplain, hne⟩ := hlost t ht
  refine ⟨d, Reader.result_parseText_of_document? {} (hundirected t ht) hd, fun he => hne ?_⟩
  rw [← Reader.toOption_parseText {} hplain, he]
  rfl

end Wcl
