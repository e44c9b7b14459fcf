import Wcl.Document.Search
import Wcl.Proofs.Document.Merge
import Wcl.Proofs.Text.Scan

/-!
# The layers of a look-up

A key without dots is looked for in a list of documents, one behind the other:
the current values in force, the caller's object, the parts of sections that the
current values select, in the search order, and the document itself
(`Document.layers`).  A dotted key is a way through nested sections
(`Entries.Leads`), and no layer plays a part.

`search_iff_finds` says that these two are all there is to a look-up: it gives
the value of the first layer that has the key, or the value that the way leads
to, and its answer to a key that is nowhere.
-/

namespace Wcl

/-! ### A way through sections -/

/-- A value stands at the end of a path of keys, each but the last of a section. -/
inductive Entries.Leads : Entries → List Text → Value → Prop
  | here {e : Entries} {k : Text} {v : Value} (h : e.get? k = some v) : Leads e [k] v
  | inside {e : Entries} {k : Text} {s : Document} {ks : List Text} {v : Value}
    (h : e.get? k = some (.nested s)) (hs : Leads s.entries ks v) : Leads e (k :: ks) v

namespace Document

theorem valueAt?_eq_some_iff {p : List Text} {d : Document} {v : Value} :
    valueAt? p d = some v ↔ d.entries.Leads p v := by
  constructor
  · intro h
    induction p generalizing d with
    | nil => cases h
    | cons k ks ih =>
      cases ks with
      | nil => exact .here h
      | cons k' ks =>
        obtain ⟨s, hs, h⟩ := Option.bind_eq_some_iff.1 h
        exact .inside (get?_of_section? hs) (ih h)
  · generalize he : d.entries = e
    intro h
    induction h generalizing d with
    | here h =>
      subst he
      exact h
    | @inside _ k s ks v h hs ih =>
      subst he
      have hsection : d.section? k = some s := by
        rw [section?, get?, h]
        rfl
      cases ks with
      | nil => cases hs
      | cons k' ks =>
        change (d.section? k).bind _ = _
        rw [hsection, Option.bind_some, ih rfl]

/-- The segments of a key are the pieces without dots that make it up. -/
theorem segments_eq_iff {k : Text} {p : List Text} :
    segments k = p ↔ p ≠ [] ∧ (∀ t ∈ p, '.' ∉ t) ∧ ['.'].intercalate p = k := by
  constructor
  · rintro rfl
    exact ⟨List.splitOn_ne_nil _ _, fun t => Text.notMem_of_mem_splitOn,
      List.intercalate_splitOn '.'⟩
  · rintro ⟨hne, hdots, rfl⟩
    exact List.splitOn_intercalate '.' hdots hne

end Document

/-! ### The layers -/

/-- Puts entries into a document, each in place of what stands under its key; of
two entries under one key the first counts. -/
def Entries.overriding : Entries → Document → Document
  | .nil, d => d
  | .scalar k t rest, d => (rest.overriding d).insert k (.scalar t)
  | .nested k order inner rest, d => (rest.overriding d).insert k (.nested ⟨inner, order⟩)

theorem Entries.get?_overriding (e : Entries) (d : Document) (key : Text) :
    (e.overriding d).get? key = (e.get? key).or (d.get? key) := by
  induction e with
  | nil => rfl
  | scalar k t rest ih =>
    rw [overriding, Document.get?_insert, ih, get?]
    split <;> rfl
  | nested k o inner rest _ ih =>
    rw [overriding, Document.get?_insert, ih, get?]
    split <;> rfl

namespace Document

/-- The current values in force: those of the document, overridden entry by
entry by those of the scope. -/
def currentValues (d : Document) (s : Scope) : Document :=
  (s.current.getD empty).entries.overriding (d.current?.getD empty)

/-- The part of a section whose name the current values give, if it is a scalar. -/
def partFor? (d current : Document) (name : Text) : Option Document := do
  let part ← current.text? (selectorKey name)
  let whole ← d.section? name
  whole.section? part

/-- The documents that a key without dots is looked for in, the first one first. -/
def layers (d : Document) (s : Scope) : List Document :=
  let current := d.currentValues s
  [current] ++ s.object.toList ++ d.searchOrder.filterMap (d.partFor? current) ++ [d]

/-- A value is found under a key in lower case: at the end of the way that a
dotted key spells, or in the first layer that has another key. -/
def Finds (d : Document) (s : Scope) (k : Text) (v : Value) : Prop :=
  if '.' ∈ k then
    ∃ path, path ≠ [] ∧ (∀ t ∈ path, '.' ∉ t) ∧ ['.'].intercalate path = k ∧
      d.entries.Leads path v
  else
    ∃ front layer back, d.layers s = front ++ layer :: back ∧ (∀ l ∈ front, k ∉ l.keys) ∧
      layer.get? k = some v

variable {d : Document} {s : Scope} {k : Text} {v : Value}

theorem get?_currentValues (d : Document) (s : Scope) (k : Text) :
    (d.currentValues s).get? k = d.currentValue? s k := by
  rw [currentValues, Entries.get?_overriding, currentValue?]
  cases s.current <;> cases d.current? <;> rfl

theorem partFor?_currentValues (d : Document) (s : Scope) (name : Text) :
    d.partFor? (d.currentValues s) name = d.selected? s name := by
  rw [partFor?, selected?, text?, get?_currentValues]
  rfl

theorem findSome?_filterMap_partFor? (d : Document) (s : Scope) (k : Text) (names : List Text) :
    (names.filterMap (d.partFor? (d.currentValues s))).findSome? (·.get? k) =
      names.findSome? fun name => (d.selected? s name).bind (·.get? k) := by
  induction names with
  | nil => rfl
  | cons name names ih =>
    rw [List.filterMap_cons, List.findSome?_cons, partFor?_currentValues]
    cases d.selected? s name with
    | none => exact ih
    | some part => rw [List.findSome?_cons, ih]; rfl

/-- The first layer that has a key is where it is found. -/
theorem findSome?_layers (d : Document) (s : Scope) (k : Text) :
    (d.layers s).findSome? (·.get? k) = d.findScoped? s k := by
  have hobject : s.object.toList.findSome? (·.get? k) = s.object.bind (·.get? k) := by
    cases s.object <;> simp
  rw [layers, List.findSome?_append, List.findSome?_append, List.findSome?_append,
    findSome?_filterMap_partFor?, hobject, findScoped?]
  simp [get?_currentValues, Option.or_assoc]

/-- What the first layer has is what is found. -/
theorem findScoped?_eq_some_iff : d.findScoped? s k = some v ↔
    ∃ front layer back, d.layers s = front ++ layer :: back ∧ (∀ l ∈ front, k ∉ l.keys) ∧
      layer.get? k = some v := by
  have hlacks : ∀ l : Document, l.get? k = none ↔ k ∉ l.keys := fun _ => Entries.get?_eq_none_iff
  rw [← findSome?_layers, List.findSome?_eq_some_iff]
  simp only [hlacks]
  constructor
  · rintro ⟨front, layer, back, hl, hv, hfront⟩
    exact ⟨front, layer, back, hl, hfront, hv⟩
  · rintro ⟨front, layer, back, hl, hfront, hv⟩
    exact ⟨front, layer, back, hl, hv, hfront⟩

theorem find?_eq_some_iff {key : Text} :
    d.find? s key = some v ↔ d.Finds s (Text.lowerCase key) v := by
  have hfind : d.find? s key = if '.' ∈ Text.lowerCase key
      then valueAt? (segments (Text.lowerCase key)) d else d.findScoped? s (Text.lowerCase key) :=
    rfl
  rw [hfind, Finds]
  generalize Text.lowerCase key = k
  by_cases hdot : '.' ∈ k
  · rw [if_pos hdot, if_pos hdot, valueAt?_eq_some_iff]
    constructor
    · intro h
      obtain ⟨hne, hdots, hk⟩ := segments_eq_iff.1 (rfl : segments k = segments k)
      exact ⟨segments k, hne, hdots, hk, h⟩
    · rintro ⟨path, hne, hdots, hk, h⟩
      rwa [segments_eq_iff.2 ⟨hne, hdots, hk⟩]
  · rw [if_neg hdot, if_neg hdot, findScoped?_eq_some_iff]

/-- **A look-up gives what the first layer has**, or what a path leads to; a key
that is nowhere is an error only if it is required. -/
theorem search_iff_finds (d : Document) (s : Scope) (required : Bool) (key : Text) :
    (∀ v, d.search s required key = .ok (some v) ↔ d.Finds s (Text.lowerCase key) v) ∧
      ((∀ v, ¬ d.Finds s (Text.lowerCase key) v) → d.search s required key =
        if required then .error (.missingKey (Text.lowerCase key)) else .ok none) := by
  simp only [← find?_eq_some_iff]
  unfold search
  cases d.find? s key with
  | none => cases required <;> simp
  | some v => simp

/-- A selector that the scope overrides, a first section of the search order
without one, and the key in two parts of a section and at the top level. -/
theorem search_iff_finds_selected :
    let d := (ofList [
      ("current".toList, .nested (ofList [("curr_m".toList, .scalar "x".toList)])),
      ("m".toList, .nested (ofList [
        ("x".toList, .nested (ofList [("k".toList, .scalar "1".toList)])),
        ("y".toList, .nested (ofList [("k".toList, .scalar "2".toList)]))])),
      ("n".toList, .nested (ofList [("x".toList, .nested (ofList []))])),
      ("k".toList, .scalar "3".toList)]).withSearchOrder ["n".toList, "m".toList]
    let s : Scope := {
      current := some (ofList [("curr_m".toList, .scalar "y".toList)])
      object := some (ofList [("l".toList, .scalar "4".toList)]) }
    d.Finds s (Text.lowerCase "K".toList) (.scalar "2".toList) ∧
      d.search s true "K".toList = .ok (some (.scalar "2".toList)) ∧
      (∀ v, ¬ d.Finds s (Text.lowerCase "m.X.l".toList) v) ∧
      d.search s true "m.X.l".toList = .error (.missingKey "m.x.l".toList) := by
  intro d s
  have hfinds : d.Finds s (Text.lowerCase "K".toList) (.scalar "2".toList) := by
    have hk : Text.lowerCase "K".toList = "k".toList := by decide
    rw [hk, Finds, if_neg (by decide)]
    exact ⟨[d.currentValues s, ofList [("l".toList, .scalar "4".toList)]],
      ofList [("k".toList, .scalar "2".toList)], [d], by decide, by decide, by decide⟩
  have hnone : d.find? s "m.X.l".toList = none := by decide
  have hlacks : ∀ v, ¬ d.Finds s (Text.lowerCase "m.X.l".toList) v := by
    intro v hv
    rw [← find?_eq_some_iff, hnone] at hv
    cases hv
  have hlower : Text.lowerCase "m.X.l".toList = "m.x.l".toList := by decide
  refine ⟨hfinds, ((search_iff_finds d s true _).1 _).2 hfinds, hlacks, ?_⟩
  rw [← hlower]
  exact (search_iff_finds d s true _).2 hlacks

end Document

end Wcl
