import Wcl.Proofs.Document.Merge

/-!
# What inserting keeps

A property that the empty document has and that inserting scalars and sections
keeps is kept by every change inside a section (`Building.modifyAt`), and so by
all that documents are built with.  Unique keys are such a property, whatever is
inserted (`building_uniqueKeys`), and merging keeps them, whatever is merged
(`UniqueKeys.update`).
-/

namespace Wcl

/-- A property of documents that is kept by inserting scalars of one kind, and
sections that have it under keys of another. -/
structure Building (P : Document → Prop) (scalar : Text → Text → Prop) (key : Text → Prop) :
    Prop where
  empty : P .empty
  insert_scalar {d : Document} {k t : Text} : P d → scalar k t → P (d.insert k (.scalar t))
  insert_nested {d s : Document} {k : Text} : P d → P s → key k → P (d.insert k (.nested s))
  inside {d s : Document} {k : Text} : P d → d.section? k = some s → P s

variable {P : Document → Prop} {scalar : Text → Text → Prop} {key : Text → Prop}

namespace Building

theorem sectionOrEmpty (h : Building P scalar key) {d : Document} (hd : P d) (k : Text) :
    P (d.sectionOrEmpty k) := by
  rw [Document.sectionOrEmpty]
  cases hs : d.section? k with
  | none => exact h.empty
  | some s => exact h.inside hd hs

theorem modifyAt (h : Building P scalar key) {f : Document → Document} (hf : ∀ s, P s → P (f s))
    {path : List Text} (hpath : ∀ k ∈ path, key k) {d : Document} (hd : P d) :
    P (Document.modifyAt f path d) := by
  induction path generalizing d with
  | nil => exact hf d hd
  | cons k ks ih =>
    obtain ⟨hk, hks⟩ := List.forall_mem_cons.1 hpath
    exact h.insert_nested hd (ih hks (h.sectionOrEmpty hd k)) hk

end Building

/-! ### Unique keys -/

/-- Keys stay unique whatever is inserted. -/
theorem building_uniqueKeys : Building Document.UniqueKeys (fun _ _ => True) (fun _ => True) where
  empty := trivial
  insert_scalar := fun {_ k _} hd _ => hd.insert (fun _ hs => by cases hs) k
  insert_nested := fun {_ _ k} hd hs _ => hd.insert (fun _ he => by cases he; exact hs) k
  inside := fun hd hs => Entries.uniqueKeys_of_get? hd (Document.get?_of_section? hs)

namespace Document

variable {d s : Document}

theorem UniqueKeys.section? {k : Text} (h : d.UniqueKeys) (hs : d.section? k = some s) :
    s.UniqueKeys :=
  building_uniqueKeys.inside h hs

theorem UniqueKeys.sectionOrEmpty (h : d.UniqueKeys) (k : Text) :
    (d.sectionOrEmpty k).UniqueKeys :=
  building_uniqueKeys.sectionOrEmpty h k

theorem UniqueKeys.sectionAt? {p : List Text} (h : d.UniqueKeys) (hs : sectionAt? p d = some s) :
    s.UniqueKeys := by
  induction p generalizing d with
  | nil =>
    cases hs
    exact h
  | cons k ks ih =>
    obtain ⟨d', hd', hs⟩ := Option.bind_eq_some_iff.1 hs
    exact ih (h.section? hd') hs

theorem UniqueKeys.modifyAt {f : Document → Document} (hf : ∀ s, s.UniqueKeys → (f s).UniqueKeys)
    (h : d.UniqueKeys) (p : List Text) : (modifyAt f p d).UniqueKeys :=
  building_uniqueKeys.modifyAt hf (fun _ _ => trivial) h

theorem UniqueKeys.mergeInto (h : d.UniqueKeys) (e : Entries) : (e.mergeInto d).UniqueKeys := by
  induction e generalizing d with
  | nil => exact h
  | scalar k t rest ih => exact ih (building_uniqueKeys.insert_scalar h trivial)
  | nested k o inner rest ihi ih =>
    exact ih (building_uniqueKeys.insert_nested h (ihi (h.sectionOrEmpty k)) trivial)

/-- Merging keeps keys unique, whatever is merged. -/
theorem UniqueKeys.update (h : d.UniqueKeys) (other : Document) : (d.update other).UniqueKeys :=
  h.mergeInto other.entries

end Document

end Wcl
