import Wcl.Proofs.Markup.Built
import Wcl.Proofs.Markup.Written

/-!
# Reading what is written

The written form of a document is the list of lines of a body
(`Body.ofEntries`), and that body inserts the entries one by one.  So if the
lines are read as what they were written for and the body is well-nested,
reading a written document merges it into the empty one, which gives the
document back (`Reader.parseText_write_of_legible`).

`Entries.Legible` says so of entries inside a section.  Whether a line is read
back depends on where it stands: a section cannot stand directly inside one of
its name, and a key must be in lower case where the lines before it do not keep
the case of keys.
-/

namespace Wcl

/-! ### The body of a written document -/

/-- The body that entries are written as. -/
def Body.ofEntries : Entries → Body
  | .nil => .nil
  | .scalar k t rest => .plain (.assignment k t) (ofEntries rest)
  | .nested k _ inner rest => .single k k (ofEntries inner) (ofEntries rest)

/-- Entries that are read back where they stand: inside a section of the given
name, behind lines after which keys keep their case or not. -/
def Entries.Legible : (enclosing : Option Text) → (keeps : Bool) → Entries → Prop
  | _, _, .nil => True
  | p, keeps, .scalar k t rest =>
    ScalarPair k t ∧ storedKey keeps k = k ∧ rest.Legible p keeps
  | p, keeps, .nested k order inner rest =>
    order = [] ∧ SectionKey k ∧ p ≠ some k ∧ inner.Legible (some k) (keepsOpened keeps k) ∧
      rest.Legible p (keepsClosed ((Body.ofEntries inner).keepsAfter (keepsOpened keeps k)) k)

namespace Entries

variable {p : Option Text} {keeps : Bool} {e : Entries}

theorem Legible.orderless (h : e.Legible p keeps) : e.Orderless := by
  induction e generalizing p keeps with
  | nil => trivial
  | scalar k t rest ih => exact ih h.2.2
  | nested k order inner rest ihi ih =>
    obtain ⟨ho, _, _, hinner, hrest⟩ := h
    exact ⟨ho, ihi hinner, ih hrest⟩

theorem Legible.wellNested (h : e.Legible p keeps) : (Body.ofEntries e).WellNested p := by
  induction e generalizing p keeps with
  | nil => trivial
  | scalar k t rest ih => exact ⟨rfl, ih h.2.2⟩
  | nested k order inner rest ihi ih =>
    obtain ⟨_, hk, hp, hinner, hrest⟩ := h
    rw [Body.ofEntries, Body.WellNested, hk.lower]
    exact ⟨hp, rfl, ihi hinner, ih hrest⟩

/-- The body inserts the entries one by one. -/
theorem Legible.apply (h : e.Legible p keeps) (d : Document) :
    (Body.ofEntries e).apply keeps d = e.mergeInto d := by
  induction e generalizing p keeps d with
  | nil => rfl
  | scalar k t rest ih =>
    obtain ⟨_, hkey, hrest⟩ := h
    rw [storedKey] at hkey
    rw [Body.ofEntries, Body.apply, Statement.apply, hkey, ih hrest, mergeInto]
  | nested k order inner rest ihi ih =>
    obtain ⟨_, hk, _, hinner, hrest⟩ := h
    rw [Body.ofEntries, Body.apply, hk.lower]
    rw [ih hrest, Document.modifyAt_cons, Document.modifyAt_nil, ihi hinner, mergeInto]

/-! ### The lines -/

/-- The lines that entries are written as, `margin` blanks from the left. -/
def lines (indent margin : Nat) (e : Entries) : List Text :=
  (e.blocks indent false margin).flatMap Prod.snd

theorem lines_scalar {t : Text} (h : t ≠ []) (indent margin : Nat) (k : Text) (rest : Entries) :
    (Entries.scalar k t rest).lines indent margin =
      (List.replicate margin ' ' ++ scalarLine k t) :: rest.lines indent margin := by
  simp [lines, blocks, h, scalarLine]

theorem lines_scalar_nil (indent margin : Nat) (k : Text) (rest : Entries) :
    (Entries.scalar k [] rest).lines indent margin = rest.lines indent margin := by
  simp [lines, blocks]

theorem lines_nested (indent margin : Nat) (k : Text) (order : List Text) (inner rest : Entries) :
    (Entries.nested k order inner rest).lines indent margin =
      (List.replicate margin ' ' ++ openingLine k) :: (inner.lines indent (margin + indent) ++
        (List.replicate margin ' ' ++ closingLine k) :: rest.lines indent margin) := by
  simp [lines, blocks, arrange, openingLine, closingLine]

theorem Legible.alone_lines (h : e.Legible p keeps) (indent margin : Nat) :
    ∀ l ∈ e.lines indent margin, Source.Alone l := by
  have hpad : ∀ c ∈ List.replicate margin ' ', c = ' ' := fun c hc => (List.mem_replicate.1 hc).2
  induction e generalizing p keeps margin with
  | nil => exact fun l hl => absurd hl List.not_mem_nil
  | scalar k t rest ih =>
    obtain ⟨hpair, _, hrest⟩ := h
    rw [lines_scalar hpair.text.ne_nil, List.forall_mem_cons]
    exact ⟨hpair.alone_scalarLine.append hpad, ih hrest margin hpad⟩
  | nested k order inner rest ihi ih =>
    obtain ⟨_, hk, _, hinner, hrest⟩ := h
    rw [lines_nested, List.forall_mem_cons, List.forall_mem_append, List.forall_mem_cons]
    exact ⟨hk.alone_openingLine.append hpad,
      ihi hinner (margin + indent) (fun c hc => (List.mem_replicate.1 hc).2),
      hk.alone_closingLine.append hpad, ih hrest margin hpad⟩

theorem Legible.statements_lines (h : e.Legible p keeps) (indent margin : Nat) :
    (e.lines indent margin).map Statement.ofLine = (Body.ofEntries e).statements := by
  have hpad : ∀ c ∈ List.replicate margin ' ', c = ' ' := fun c hc => (List.mem_replicate.1 hc).2
  induction e generalizing p keeps margin with
  | nil => rfl
  | scalar k t rest ih =>
    obtain ⟨hpair, _, hrest⟩ := h
    rw [lines_scalar hpair.text.ne_nil, List.map_cons, Statement.ofLine_scalarLine hpair hpad,
      ih hrest margin hpad, Body.ofEntries, Body.statements]
  | nested k order inner rest ihi ih =>
    obtain ⟨_, hk, _, hinner, hrest⟩ := h
    rw [lines_nested, List.map_cons, List.map_append, List.map_cons,
      Statement.ofLine_openingLine hk hpad, Statement.ofLine_closingLine hk hpad,
      ihi hinner (margin + indent) (fun c hc => (List.mem_replicate.1 hc).2), ih hrest margin hpad,
      Body.ofEntries, Body.statements]

end Entries

/-- A document whose entries are read back is what is read from its written
form. -/
theorem Reader.parseText_write_of_legible (r : Reader) {d : Document} (hu : d.UniqueKeys)
    (ho : d.searchOrder = []) (h : d.entries.Legible none false) (indent : Nat) :
    (r.parseText (d.write false indent)).result = .ok d := by
  have hb := h.wellNested
  have hst : Statement.ofText (d.write false indent) = (Body.ofEntries d.entries).statements :=
    (Statement.ofText_lines (h.alone_lines indent 0)).trans (h.statements_lines indent 0)
  obtain ⟨number, hresult⟩ := r.result_parseText (t := d.write false indent)
    (hst ▸ hb.isDirective)
  rw [hresult, hst, run_body hb, h.apply]
  exact congrArg Except.ok (Document.update_empty hu h.orderless ho)

end Wcl
