import Wcl.Markup.Reader
import Wcl.Proofs.Document.Operations

/-!
# The documents there can be

A document is made of pairs, changed by operations, taken out of another one or
read from a source, with all that is included (`Document.Reachable`).  Whatever
the steps were, its keys are unique at every depth, and the next operation keeps
their order (`Document.Reachable.keysInOrder`).

A source is read line by line: each line keeps the keys of the document unique
(`Reader.uniqueKeys_step`), so all of them do (`Reader.uniqueKeys_readLines`).
What an include brings is merged, and that keeps keys unique whatever it is.
-/

namespace Wcl

/-! ### Reading keeps keys unique -/

namespace Sections

variable {s s' : Sections} {tag : Text}

theorem uniqueKeys_push (hs : s.root.UniqueKeys) (frame : Frame) :
    (s.push frame).root.UniqueKeys :=
  hs.modifyAt (fun _ h => h) _

theorem uniqueKeys_opened {label : Option Text} (hs : s.root.UniqueKeys)
    (h : s.opened tag label = .ok s') : s'.root.UniqueKeys := by
  rw [opened] at h
  split at h
  · cases h
  · cases label with
    | none =>
      cases h
      exact uniqueKeys_push hs _
    | some l =>
      cases h
      exact uniqueKeys_push (uniqueKeys_push hs _) _

theorem root_closed (h : s.closed tag = .ok s') : s'.root = s.root := by
  rw [closed] at h
  split at h
  · cases h
  · split at h
    · cases h
      rfl
    · split at h
      · split at h
        · cases h
          rfl
        · cases h
      · cases h

end Sections

namespace Reader

variable {r : Reader} {load : Nat → Sections → Text → Traced Document} {source : Text}

theorem uniqueKeys_step {number : Nat} {statement : Statement} {s s' : Sections}
    (hs : s.root.UniqueKeys) (h : (r.step load source number statement s).result = .ok s') :
    s'.root.UniqueKeys := by
  cases statement with
  | blank =>
    cases h
    exact hs
  | includeFile path =>
    obtain ⟨d, _, hd⟩ := Traced.bind_eq_ok.1 h
    cases hd
    exact hs.update d
  | includeCall name keys =>
    obtain ⟨d, _, hd⟩ := Traced.bind_eq_ok.1 h
    cases hd
    exact hs.update d
  | badDirective line => cases h
  | closing tag =>
    cases hc : s.closed tag with
    | error fault =>
      rw [step, hc] at h
      cases h
    | ok s₁ =>
      rw [step, hc] at h
      cases h
      rwa [Sections.root_closed hc]
  | opening tag label =>
    cases ho : s.opened tag label with
    | error fault =>
      rw [step, ho] at h
      cases h
    | ok s₁ =>
      rw [step, ho] at h
      cases h
      exact Sections.uniqueKeys_opened hs ho
  | assignment key value =>
    cases h
    exact hs.modifyAt (fun _ hd => building_uniqueKeys.insert_scalar hd trivial) _
  | other line =>
    cases h
    exact hs

theorem uniqueKeys_readLines {lines : List LogicalLine} {last : Nat} {s : Sections} {d : Document}
    (hs : s.root.UniqueKeys) (h : (r.readLines load source last lines s).result = .ok d) :
    d.UniqueKeys := by
  induction lines generalizing last s with
  | nil =>
    rw [readLines, Traced.result_ofExcept, Sections.finished] at h
    split at h
    · cases h
      exact hs
    · cases h
  | cons line lines ih =>
    obtain ⟨number, text⟩ := line
    cases text with
    | none => cases h
    | some text =>
      obtain ⟨s', hstep, hrest⟩ := Traced.bind_eq_ok.1 h
      exact ih (uniqueKeys_step hs hstep) hrest

theorem uniqueKeys_parse {lines : Source} {d : Document}
    (h : (r.parse source lines).result = .ok d) : d.UniqueKeys :=
  uniqueKeys_readLines (s := {}) trivial h

end Reader

namespace Document

/-! ### Steps to a document -/

/-- The documents that come about by these steps, in any number and order. -/
inductive Reachable : Document → Prop
  /-- Pairs, one after another. -/
  | ofList {pairs : List (Text × Value)} :
      (∀ p ∈ pairs, ∀ s ∈ p.2.section?, Reachable s) → Reachable (ofList pairs)
  /-- An operation on the document or on a section inside it. -/
  | changed {d : Document} (op : Operation) (path : List Text) :
      (∀ s ∈ op.given, Reachable s) → Reachable d → Reachable (op.applyAt path d)
  /-- A section by itself. -/
  | inside {d s : Document} {path : List Text} :
      Reachable d → sectionAt? path d = some s → Reachable s
  /-- What is read from a source, whatever include functions return. -/
  | read {r : Reader} {source : Text} {lines : Source} {d : Document} :
      (r.parse source lines).result = .ok d → Reachable d

/-- The keys of a document are in order, and stay so. -/
structure KeysInOrder (d : Document) : Prop where
  /-- No key stands twice, at any depth. -/
  unique : d.UniqueKeys
  /-- After any operation but a removal, a section that it has not put out of its
  place has its keys as they were, with new ones behind them. -/
  kept {op : Operation} {path q : List Text} : (∀ s ∈ op.given, s.Reachable) →
    (∀ k, op ≠ .remove k) → (∀ p, op.Displaces p → ¬ path ++ p <+: q) →
      Keeps (· <+: ·) d (op.applyAt path d) q
  /-- A removal takes the entry under its key out, and no other. -/
  takenOut {path : List Text} {s : Document} {k : Text} : sectionAt? path d = some s →
    k ∈ s.keys → TakenOut k path d ((Operation.remove k).applyAt path d)
  /-- Where there is no entry under the key, it does nothing. -/
  untouched {path : List Text} {k : Text} : (∀ s, sectionAt? path d = some s → k ∉ s.keys) →
    (Operation.remove k).applyAt path d = d

theorem Reachable.uniqueKeys {d : Document} (h : d.Reachable) : d.UniqueKeys := by
  induction h with
  | ofList _ ih => exact uniqueKeys_ofList ih
  | changed op path _ _ ihgiven ih => exact Operation.uniqueKeys_applyAt ihgiven path ih
  | inside _ hs ih => exact ih.sectionAt? hs
  | read h => exact Reader.uniqueKeys_parse h

/-- **Keys are unique and keep their order**, in every document there can be. -/
theorem Reachable.keysInOrder {d : Document} (h : d.Reachable) : d.KeysInOrder where
  unique := h.uniqueKeys
  kept := fun hop => Operation.keeps_applyAt fun s hs => (hop s hs).uniqueKeys
  takenOut := Operation.takenOut_applyAt
  untouched := Operation.applyAt_remove_of_notMem

/-- A section that is opened twice and a key that is given twice; then the
section is merged with another one and loses a key. -/
theorem keysInOrder_read :
    let t := "<s>\nk = 1\nx = 2\n</s>\nt = 3\n<s>\ny = 4\nk = 5\n</s>\n".toList
    let d₁ := ofList [
      ("s".toList, .nested (ofList [
        ("k".toList, .scalar "5".toList),
        ("x".toList, .scalar "2".toList),
        ("y".toList, .scalar "4".toList)])),
      ("t".toList, .scalar "3".toList)]
    let pairs := [("z".toList, Value.scalar "6".toList), ("x".toList, .scalar "7".toList)]
    let d₂ := (Operation.update (ofList pairs)).applyAt ["s".toList] d₁
    let d₃ := (Operation.remove "k".toList).applyAt ["s".toList] d₂
    (({} : Reader).parseText t).result = .ok d₁ ∧ d₃.Reachable ∧ d₃.KeysInOrder ∧
      d₃ = ofList [
        ("s".toList, .nested (ofList [
          ("x".toList, .scalar "7".toList),
          ("y".toList, .scalar "4".toList),
          ("z".toList, .scalar "6".toList)])),
        ("t".toList, .scalar "3".toList)] := by
  intro t d₁ pairs d₂ d₃
  have hread : (({} : Reader).parseText t).result = .ok d₁ := by rfl
  have hscalars : ∀ p ∈ pairs, p.2.section? = none := by decide
  have hpairs : (ofList pairs).Reachable := by
    refine .ofList fun p hp s hs => ?_
    rw [hscalars p hp] at hs
    cases hs
  have hd₂ : d₂.Reachable := by
    refine .changed _ _ (fun s hs => ?_) (.read hread)
    rwa [List.mem_singleton.1 hs]
  have hd₃ : d₃.Reachable := .changed _ _ (fun s hs => by cases hs) hd₂
  exact ⟨hread, hd₃, hd₃.keysInOrder, by decide⟩

end Document

end Wcl
