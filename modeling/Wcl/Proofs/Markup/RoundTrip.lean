import Wcl.Proofs.Markup.Legible

/-!
# Writing and reading back

A document that markup can express is what is read from its written form
(`parseText_write`).  `Document.Representable` lists what the
markup can express: names and texts that nothing cuts into, no section directly
inside one of its name, keys in lower case where they are not kept as spelled,
and no section that keeps case inside another one, whose closing line would end
it too early.
-/

namespace Wcl

/-! ### What can be written -/

/-- Entries that stand inside a section of the given name, where keys keep their
case or not, and can be written. -/
def Entries.Representable : (enclosing : Option Text) → (keeps : Bool) → Entries → Prop
  | _, _, .nil => True
  | p, keeps, .scalar k t rest =>
    ScalarKey keeps k ∧ ScalarText t ∧ rest.Representable p keeps
  | p, keeps, .nested k order inner rest =>
    order = [] ∧ SectionKey k ∧ p ≠ some k ∧ (keeps = true → k ∉ caseKeepingKeys) ∧
      inner.Representable (some k) (keepsOpened keeps k) ∧ rest.Representable p keeps

/-- A document that markup can express. -/
structure Document.Representable (d : Document) : Prop where
  searchOrder : d.searchOrder = []
  entries : d.entries.Representable none false

instance Entries.decidableRepresentable :
    (p : Option Text) → (keeps : Bool) → (e : Entries) → Decidable (e.Representable p keeps)
  | _, _, .nil => .isTrue trivial
  | p, keeps, .scalar _ _ rest =>
    have := decidableRepresentable p keeps rest
    inferInstanceAs (Decidable (_ ∧ _ ∧ _))
  | p, keeps, .nested k _ inner rest =>
    have := decidableRepresentable (some k) (keepsOpened keeps k) inner
    have := decidableRepresentable p keeps rest
    inferInstanceAs (Decidable (_ ∧ _ ∧ _ ∧ _ ∧ _ ∧ _))

instance (d : Document) : Decidable d.Representable :=
  decidable_of_iff (d.searchOrder = [] ∧ d.entries.Representable none false)
    ⟨fun ⟨h₁, h₂⟩ => ⟨h₁, h₂⟩, fun h => ⟨h.searchOrder, h.entries⟩⟩

/-! ### Writing and reading -/

theorem keepsClosed_keepsOpened {keeps : Bool} {k : Text}
    (h : keeps = true → k ∉ caseKeepingKeys) : keepsClosed (keepsOpened keeps k) k = keeps := by
  cases keeps with
  | false => cases caseKeepingKeys.contains k <;> simp [keepsClosed, keepsOpened]
  | true => simp [keepsClosed, keepsOpened, h rfl]

namespace Entries

variable {p : Option Text} {keeps : Bool} {e : Entries}

theorem Representable.keepsAfter (h : e.Representable p keeps) :
    (Body.ofEntries e).keepsAfter keeps = keeps := by
  induction e generalizing p keeps with
  | nil => rfl
  | scalar k t rest ih => exact ih h.2.2
  | nested k order inner rest ihi ih =>
    obtain ⟨_, hk, _, hcase, hinner, hrest⟩ := h
    rw [Body.ofEntries, Body.keepsAfter, hk.lower]
    rw [ihi hinner, keepsClosed_keepsOpened hcase, ih hrest]

/-- Behind a section, keys keep their case as they did before it. -/
theorem Representable.legible (h : e.Representable p keeps) : e.Legible p keeps := by
  induction e generalizing p keeps with
  | nil => trivial
  | scalar k t rest ih =>
    obtain ⟨hk, ht, hrest⟩ := h
    have hkey : storedKey keeps k = k := by
      cases keeps with
      | false => exact hk.lower rfl
      | true => rfl
    exact ⟨hk.scalarPair ht, hkey, ih hrest⟩
  | nested k order inner rest ihi ih =>
    obtain ⟨ho, hk, hp, hcase, hinner, hrest⟩ := h
    refine ⟨ho, hk, hp, ihi hinner, ?_⟩
    rw [hinner.keepsAfter, keepsClosed_keepsOpened hcase]
    exact ih hrest

end Entries

/-- A document that can be written is what is read from its written form. -/
theorem Reader.parseText_write (r : Reader) {d : Document} (hu : d.UniqueKeys)
    (h : d.Representable) (indent : Nat) :
    (r.parseText (d.write false indent)).result = .ok d :=
  r.parseText_write_of_legible hu h.searchOrder h.entries.legible indent

/-- Keys that keep their case in a section inside one that keeps it, a section
of the name of one that is not directly around it, and texts with the reader's
own signs. -/
theorem Reader.parseText_write_nested :
    let d : Document := .ofList [
      ("a".toList, .nested (.ofList [
        ("cmdline".toList, .nested (.ofList [
          ("In".toList, .scalar "= <b>".toList),
          ("a".toList, .nested (.ofList [("X".toList, .scalar "</a>".toList)]))])),
        ("k/>".toList, .scalar "\\ $\x7bx\x7d".toList)])),
      ("empty".toList, .nested .empty)]
    d.UniqueKeys ∧ d.Representable ∧
      (({} : Reader).parseText (d.write false 3)).result = .ok d := by
  intro d
  have hu : d.UniqueKeys := by decide
  have h : d.Representable := by decide
  exact ⟨hu, h, parseText_write {} hu h 3⟩

end Wcl
