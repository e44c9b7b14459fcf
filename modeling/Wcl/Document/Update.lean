import Wcl.Document.Path

/-!
# Merging documents

`update` merges a document into another: a scalar overwrites, a section merges
with the section under its key, and new keys come at the end.  The receiving
side keeps its search orders; a section that is new has none.
-/

namespace Wcl

/-- Merges entries into a document, one after another. -/
def Entries.mergeInto : Entries → Document → Document
  | .nil, d => d
  | .scalar k t rest, d => rest.mergeInto (d.insert k (.scalar t))
  | .nested k _ inner rest, d =>
    rest.mergeInto (d.insert k (.nested (inner.mergeInto (d.sectionOrEmpty k))))

/-- The document with another one merged into it. -/
def Document.update (d other : Document) : Document := other.entries.mergeInto d

@[simp] theorem Entries.searchOrder_mergeInto (e : Entries) (d : Document) :
    (e.mergeInto d).searchOrder = d.searchOrder := by
  induction e generalizing d with
  | nil => rfl
  | scalar k t rest ih => simp [mergeInto, ih]
  | nested k o inner rest _ ih => simp [mergeInto, ih]

@[simp] theorem Document.searchOrder_update (d other : Document) :
    (d.update other).searchOrder = d.searchOrder :=
  other.entries.searchOrder_mergeInto d

end Wcl
