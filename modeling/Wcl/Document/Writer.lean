import Wcl.Document.Basic

/-!
# Writing markup

A section is written as an opening line, its entries further to the right, and
a closing line; a scalar as one line, and an empty scalar not at all.  Sorted
output puts the entries of each section in the order of their keys; the section
`cmdline` keeps its order, at any depth below it.
-/

namespace Wcl

/-- The section whose entries keep their order. -/
def orderedKey : Text := "cmdline".toList

/-- The lines of a section, entry by entry, in the order they are written in. -/
def arrange (sorted : Bool) (blocks : List (Text × List Text)) : List Text :=
  (if sorted then blocks.mergeSort (fun a b => Text.atMost a.1 b.1) else blocks).flatMap Prod.snd

/-- Each entry's key with its lines, `margin` blanks from the left. -/
def Entries.blocks (indent : Nat) (sorted : Bool) (margin : Nat) :
    Entries → List (Text × List Text)
  | .nil => []
  | .scalar k t rest =>
    (k, if t.isEmpty then [] else [List.replicate margin ' ' ++ k ++ " = ".toList ++ t])
      :: rest.blocks indent sorted margin
  | .nested k _ inner rest =>
    let pad := List.replicate margin ' '
    let sortedInside := sorted && k != orderedKey
    (k, (pad ++ '<' :: k ++ ['>'])
        :: arrange sortedInside (inner.blocks indent sortedInside (margin + indent))
        ++ [pad ++ '<' :: '/' :: k ++ ['>']])
      :: rest.blocks indent sorted margin

namespace Document

/-- The lines of the written document. -/
def lines (d : Document) (sorted : Bool) (indent : Nat) : List Text :=
  arrange sorted (d.entries.blocks indent sorted 0)

/-- The document as markup. -/
def write (d : Document) (sorted : Bool) (indent : Nat) : Text :=
  (d.lines sorted indent).flatMap (· ++ ['\n'])

end Document

end Wcl
