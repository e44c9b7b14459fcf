import Wcl.Proofs.Document.Building
import Wcl.Proofs.Markup.Body

/-!
# What every document that is read has

A document is read by inserting scalars and sections into the empty one, so it
has every property that inserting keeps (`Building`); what is inserted are the
keys and values of its statements.
`Body.apply_built` says so of a body, and `Reader.exists_body_of_parseText` that
there is one behind every text that is read.

Unique keys are such a property whatever the statements say (`building_uniqueKeys`);
that all scalars and names are of some kind and no section has a search order is
one for statements of that kind (`building_every`).
-/

namespace Wcl

/-- A key as it is kept. -/
def storedKey (keeps : Bool) (key : Text) : Text := if keeps then key else Text.lowerCase key

/-- Whether what a statement inserts is of those kinds. -/
def Statement.Inserts (scalar : Text → Text → Prop) (key : Text → Prop) : Statement → Prop
  | .assignment k t => ∀ keeps, scalar (storedKey keeps k) t
  | .opening tag label => key (Text.lowerCase tag) ∧ ∀ l ∈ label, key (Text.lowerCase l)
  | _ => True

variable {P : Document → Prop} {scalar : Text → Text → Prop} {key : Text → Prop}

/-- A body keeps what inserting its keys and values keeps. -/
theorem Body.apply_built (h : Building P scalar key) {b : Body}
    (hb : ∀ st ∈ b.statements, st.Inserts scalar key) (keeps : Bool) {d : Document} (hd : P d) :
    P (b.apply keeps d) := by
  induction b generalizing keeps d with
  | nil => exact hd
  | plain statement rest ih =>
    rw [statements, List.forall_mem_cons] at hb
    refine ih hb.2 keeps ?_
    cases statement with
    | assignment k t => exact h.insert_scalar hd (hb.1 keeps)
    | _ => exact hd
  | single tag close inner rest ihi ih =>
    rw [statements, List.forall_mem_cons, List.forall_mem_append, List.forall_mem_cons] at hb
    obtain ⟨⟨htag, _⟩, hinner, _, hrest⟩ := hb
    refine ih hrest _ (h.modifyAt (fun s hs => ihi hinner _ hs) ?_ hd)
    exact List.forall_mem_singleton.2 htag
  | labelled tag label closeLabel close inner outer rest ihi iho ih =>
    rw [statements, List.forall_mem_cons, List.forall_mem_append, List.forall_mem_cons,
      List.forall_mem_append, List.forall_mem_cons] at hb
    obtain ⟨⟨htag, hlabel⟩, hinner, _, houter, _, hrest⟩ := hb
    refine ih hrest _ (h.modifyAt (fun s hs => iho houter _ (h.modifyAt ?_ ?_ hs)) ?_ hd)
    · exact fun s hs => ihi hinner _ hs
    · exact List.forall_mem_singleton.2 (hlabel label rfl)
    · exact List.forall_mem_singleton.2 htag
  | pair tag label close inner rest ihi ih =>
    rw [statements, List.forall_mem_cons, List.forall_mem_append, List.forall_mem_cons] at hb
    obtain ⟨⟨htag, hlabel⟩, hinner, _, hrest⟩ := hb
    refine ih hrest _ (h.modifyAt (fun s hs => ihi hinner _ hs) ?_ hd)
    exact List.forall_mem_cons.2 ⟨htag, List.forall_mem_singleton.2 (hlabel label rfl)⟩

/-! ### Keys and search orders -/

theorem Statement.inserts_of_forall {scalar : Text → Text → Prop} {key : Text → Prop}
    (hscalar : ∀ k t, scalar k t) (hkey : ∀ k, key k) (st : Statement) :
    st.Inserts scalar key := by
  cases st with
  | assignment k t => exact fun keeps => hscalar _ t
  | opening tag label => exact ⟨hkey _, fun l _ => hkey _⟩
  | _ => trivial

theorem Body.uniqueKeys_apply (b : Body) (keeps : Bool) {d : Document} (hd : d.UniqueKeys) :
    (b.apply keeps d).UniqueKeys :=
  b.apply_built building_uniqueKeys
    (fun st _ => st.inserts_of_forall (fun _ _ => trivial) (fun _ => trivial)) keeps hd

/-! ### Scalars and names of sections -/

/-- All scalars and all names of sections are of some kinds, and no section has
a search order. -/
def Entries.Every (scalar : Text → Text → Prop) (key : Text → Prop) : Entries → Prop
  | .nil => True
  | .scalar k t rest => scalar k t ∧ rest.Every scalar key
  | .nested k order inner rest =>
    order = [] ∧ key k ∧ inner.Every scalar key ∧ rest.Every scalar key

namespace Entries

variable {scalar : Text → Text → Prop} {key : Text → Prop} {e : Entries} {k : Text} {v : Value}

theorem every_cons :
    (cons k v e).Every scalar key ↔ (cons k v .nil).Every scalar key ∧ e.Every scalar key := by
  cases v with
  | scalar t => simp [cons, Every]
  | nested d => simp [cons, Every, and_assoc]

theorem Every.insert (h : e.Every scalar key) (hv : (cons k v .nil).Every scalar key) :
    (e.insert k v).Every scalar key := by
  induction e with
  | nil => exact hv
  | scalar k' t rest ih =>
    rw [Entries.insert]
    split
    · exact every_cons.2 ⟨hv, h.2⟩
    · exact ⟨h.1, ih h.2⟩
  | nested k' order inner rest _ ih =>
    obtain ⟨ho, hk, hinner, hrest⟩ := h
    rw [Entries.insert]
    split
    · exact every_cons.2 ⟨hv, hrest⟩
    · exact ⟨ho, hk, hinner, ih hrest⟩

theorem Every.of_get? (h : e.Every scalar key) {s : Document} (hs : e.get? k = some (.nested s)) :
    s.searchOrder = [] ∧ s.entries.Every scalar key := by
  induction e with
  | nil => cases hs
  | scalar k' t rest ih =>
    rw [get?] at hs
    split at hs
    · cases hs
    · exact ih h.2 hs
  | nested k' order inner rest _ ih =>
    obtain ⟨ho, _, hinner, hrest⟩ := h
    rw [get?] at hs
    split at hs
    · cases hs
      exact ⟨ho, hinner⟩
    · exact ih hrest hs

end Entries

theorem building_every (scalar : Text → Text → Prop) (key : Text → Prop) :
    Building (fun d => d.searchOrder = [] ∧ d.entries.Every scalar key) scalar key where
  empty := ⟨rfl, trivial⟩
  insert_scalar := fun hd hs => ⟨hd.1, hd.2.insert ⟨hs, trivial⟩⟩
  insert_nested := fun hd hs hk => ⟨hd.1, hd.2.insert ⟨hs.1, hk, hs.2, trivial⟩⟩
  inside := fun hd hs => hd.2.of_get? (Document.get?_of_section? hs)

/-! ### The body behind a text -/

/-- Behind a document that is read without directives there is a body. -/
theorem Reader.exists_body_of_parseText {r : Reader} {t : Text} (h : Source.Undirected t)
    {d : Document} (hd : (r.parseText t).result = .ok d) :
    ∃ b : Body, b.WellNested none ∧ b.statements = Statement.ofText t ∧
      d = b.apply false .empty := by
  have hplain := Statement.isDirective_ofText h
  obtain ⟨number, hresult⟩ := r.result_parseText hplain
  rw [hresult] at hd
  cases hrun : Sections.run (Statement.ofText t) {} >>= Sections.finished with
  | error fault =>
    rw [hrun] at hd
    cases hd
  | ok d' =>
    rw [hrun] at hd
    cases hd
    obtain ⟨b, hb, hst⟩ := exists_body_of_finished hplain hrun
    rw [← hst, run_body hb] at hrun
    cases hrun
    exact ⟨b, hb, hst, rfl⟩

end Wcl
