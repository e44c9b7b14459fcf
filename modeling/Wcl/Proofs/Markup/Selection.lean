import Wcl.Proofs.Document.Setting
import Wcl.Proofs.Markup.Case
import Wcl.Proofs.Markup.Overwriting
import Wcl.Proofs.Text.LowerCase

/-!
# The part of a section that a selector names

The names of sections are kept in lower case, those of labels too, but the value
of a selector is kept as it is spelled, and a look-up takes it for a name as it is.

So what a line inside `<s l>` assigns is found through the search order if the
selector spells the label in lower case.  Otherwise no section has that name
(`Document.Folded`, kept by every line: `Reader.folded_step`), and the look-up
goes on to the top level: `Reader.search_selected`.
-/

namespace Wcl

/-! ### Names of sections in lower case -/

theorem Entries.Every.key_of_get? {scalar : Text → Text → Prop} {key : Text → Prop} {e : Entries}
    {k : Text} {s : Document} (h : e.Every scalar key) (hs : e.get? k = some (.nested s)) :
    key k := by
  induction e with
  | nil => cases hs
  | scalar k' t rest ih =>
    rw [get?] at hs
    split at hs
    · cases hs
    · exact ih h.2 hs
  | nested k' order inner rest _ ih =>
    obtain ⟨_, hk, _, hrest⟩ := h
    rw [get?] at hs
    split at hs
    · next he => exact he ▸ hk
    · exact ih hrest hs

/-- All names of sections are in lower case, and no section has a search order. -/
def Document.Folded (d : Document) : Prop :=
  d.searchOrder = [] ∧ d.entries.Every (fun _ _ => True) fun k => Text.lowerCase k = k

theorem building_folded :
    Building Document.Folded (fun _ _ => True) fun k => Text.lowerCase k = k :=
  building_every _ _

namespace Document

variable {d : Document} {k : Text}

theorem Folded.mergeInto {e : Entries} (hd : d.Folded)
    (he : e.Every (fun _ _ => True) fun k => Text.lowerCase k = k) : (e.mergeInto d).Folded := by
  induction e generalizing d with
  | nil => exact hd
  | scalar k t rest ih => exact ih (building_folded.insert_scalar hd trivial) he.2
  | nested k o inner rest ihi ih =>
    obtain ⟨_, hk, hinner, hrest⟩ := he
    have hmerged := ihi (building_folded.sectionOrEmpty hd k) hinner
    exact ih (building_folded.insert_nested hd hmerged hk) hrest

theorem Folded.section?_eq_none (hd : d.Folded) (hk : Text.lowerCase k ≠ k) :
    d.section? k = none := by
  cases hs : d.section? k with
  | none => rfl
  | some s => exact absurd (hd.2.key_of_get? (get?_of_section? hs)) hk

end Document

/-- The names of the sections that are open are in lower case, too. -/
structure Sections.Folded (s : Sections) : Prop where
  root : s.root.Folded
  frames : ∀ frame ∈ s.frames, Text.lowerCase frame.key = frame.key

namespace Sections

variable {s s' : Sections} {tag : Text} {label : Option Text}

theorem Folded.lowerCase_path (h : s.Folded) : ∀ k ∈ s.path, Text.lowerCase k = k := by
  intro k hk
  obtain ⟨frame, hmem, rfl⟩ := List.mem_map.1 hk
  exact h.frames frame (List.mem_reverse.1 hmem)

theorem Folded.modify (h : s.Folded) {f : Document → Document}
    (hf : ∀ d, d.Folded → (f d).Folded) : (s.modify f).Folded where
  root := building_folded.modifyAt hf h.lowerCase_path h.root
  frames := h.frames

theorem Folded.push (h : s.Folded) {frame : Frame} (hkey : Text.lowerCase frame.key = frame.key) :
    (s.push frame).Folded := by
  have hframes : ∀ f ∈ frame :: s.frames, Text.lowerCase f.key = f.key :=
    List.forall_mem_cons.2 ⟨hkey, h.frames⟩
  have hopened : ({ s with frames := frame :: s.frames } : Sections).Folded := ⟨h.root, hframes⟩
  exact hopened.modify fun _ hd => hd

theorem Folded.opened (h : s.Folded) (ho : s.opened tag label = .ok s') : s'.Folded := by
  rw [Sections.opened] at ho
  split at ho
  · cases ho
  · have hs : ∀ keepsCase, ({ s with keepsCase } : Sections).Folded :=
      fun _ => ⟨h.root, h.frames⟩
    cases label with
    | none =>
      cases ho
      exact (hs _).push (Text.lowerCase_lowerCase tag)
    | some l =>
      cases ho
      exact ((hs _).push (Text.lowerCase_lowerCase tag)).push (Text.lowerCase_lowerCase l)

theorem Folded.closed (h : s.Folded) (hc : s.closed tag = .ok s') : s'.Folded where
  root := root_closed hc ▸ h.root
  frames := by
    obtain ⟨gone, hframes, _⟩ := exists_gone_of_closed hc
    exact fun frame hmem => h.frames frame (hframes ▸ List.mem_append_right gone hmem)

end Sections

namespace Reader

variable {r : Reader} {left number : Nat} {source : Text} {s s' : Sections} {d : Document}
  {load : Nat → Sections → Text → Traced Document} {lines : List LogicalLine}

/-- **One line** keeps the names in lower case, if what is included does and no
function is called. -/
theorem folded_step (hregistry : r.registry = none) {st : Statement}
    (hload : ∀ number s raw d, (load number s raw).result = .ok d → d.Folded) (hs : s.Folded)
    (h : (r.step load source number st s).result = .ok s') : s'.Folded := by
  cases st with
  | includeFile raw =>
    obtain ⟨d, hd, h⟩ := Traced.bind_eq_ok.1 h
    cases h
    exact ⟨hs.root.mergeInto (hload _ _ _ d hd).2, hs.frames⟩
  | includeCall name keys =>
    obtain ⟨d, hd, _⟩ := Traced.bind_eq_ok.1 h
    rw [callInclude, hregistry] at hd
    cases hd
  | badDirective line => cases h
  | closing tag => exact hs.closed (mapError_eq_ok.1 h)
  | opening tag label => exact hs.opened (mapError_eq_ok.1 h)
  | assignment key value =>
    cases h
    exact hs.modify fun d hd => building_folded.insert_scalar hd trivial
  | blank =>
    cases h
    exact hs
  | other line =>
    cases h
    exact hs

/-- **All lines of a file** do. -/
theorem folded_passes (hregistry : r.registry = none)
    (hload : ∀ number s raw d, (load number s raw).result = .ok d → d.Folded) (hs : s.Folded)
    (h : r.passes load source lines s = .ok s') : s'.Folded := by
  induction lines generalizing s with
  | nil =>
    cases h
    exact hs
  | cons first lines ih =>
    obtain ⟨number, line | line⟩ := first
    · cases h
    · obtain ⟨s₁, hstep, h⟩ := passes_cons_eq_ok.1 h
      exact ih (folded_step hregistry hload hs hstep) h

/-- So every file that is read has them, with the files it includes. -/
theorem folded_readSource (hregistry : r.registry = none) {keeps : Bool} {lines : Source}
    (h : (r.readSource left source keeps lines).result = .ok d) : d.Folded := by
  induction left using Nat.strongRecOn generalizing source keeps lines d with
  | ind left ih =>
    obtain ⟨s', hpass, hfinished⟩ := readSource_eq_ok.1 h
    obtain ⟨-, rfl⟩ := Sections.finished_eq_ok_iff.1 hfinished
    have hstart : ({ keepsCase := keeps } : Sections).Folded :=
      ⟨building_folded.empty, fun _ hm => absurd hm List.not_mem_nil⟩
    refine (folded_passes hregistry (fun _ _ _ _ hd => ?_) hstart hpass).root
    obtain ⟨left', path, file, rfl, -, -, hd⟩ := loadWithin_eq_ok.1 hd
    exact ih left' (Nat.lt_succ_self left') hd

end Reader

/-! ### Looking through one section -/

namespace Document

variable {d : Document} {s l k : Text}

/-- Where the current values name a part of the only section in the search order, and
have no such key themselves, the part comes before the top level. -/
theorem find?_selected (hlower : Text.lowerCase k = k) (hdot : '.' ∉ k)
    (hselector : valueAt? [currentKey, selectorKey s] d = some (.scalar l))
    (hcurrent : valueAt? [currentKey, k] d = none) :
    (d.withSearchOrder [s]).find? {} k = (valueAt? [s, l, k] d).or (d.get? k) := by
  have hvalue : ∀ key, (d.withSearchOrder [s]).currentValue? {} key =
      valueAt? [currentKey, key] d := fun key => Option.none_or
  have hselected : (d.withSearchOrder [s]).selected? {} s =
      (d.section? s).bind (·.section? l) := by
    rw [selected?, hvalue, hselector]
    rfl
  have hpart : valueAt? [s, l, k] d = ((d.section? s).bind (·.section? l)).bind (·.get? k) := by
    show (d.section? s).bind (fun whole => (whole.section? l).bind (·.get? k)) = _
    rw [Option.bind_assoc]
  unfold find?
  dsimp only
  rw [hlower, if_neg hdot, findScoped?, hvalue, hcurrent, Option.none_or, hpart, ← hselected]
  show Option.or none (([s].findSome? _).or (d.get? k)) = _
  rw [Option.none_or, List.findSome?_cons]
  cases (d.withSearchOrder [s]).selected? {} s with
  | none => rfl
  | some part => cases hget : part.get? k <;> simp [hget]

end Document

/-! ### Lines inside a labelled section -/

namespace Reader

/-- Behind these lines, with these sections open, the innermost section is the one
that a line `<tag label>` among them has opened at the top level. -/
def Inside (r : Reader) (front : List Statement) (here : Sections) (tag label : Text) : Prop :=
  ∃ before between outer opened, front = before ++ .opening tag (some label) :: between ∧
    r.obeys maxIncludeDepth before {} = .ok outer ∧ outer.frames = [] ∧
    outer.opened tag (some label) = .ok opened ∧
    r.obeys maxIncludeDepth between opened = .ok here ∧ here.frames = opened.frames

variable {r : Reader} {front back : List Statement} {here : Sections} {d : Document}
  {t tag label key value s l k : Text}

/-- Its names are in lower case. -/
theorem Inside.path_eq (h : r.Inside front here tag label) :
    here.path = [Text.lowerCase tag, Text.lowerCase label] := by
  obtain ⟨_, _, outer, opened, -, -, htop, hopen, -, hframes⟩ := h
  have hopened := Sections.frames_of_opened hopen
  rw [htop] at hopened
  rw [Sections.path, hframes, hopened]
  rfl

theorem folded_parseText (hregistry : r.registry = none) (hd : (r.parseText t).result = .ok d) :
    d.Folded :=
  folded_readSource hregistry hd

/-- **A selector finds the part that it spells in lower case.**  Where a line in a
section `<s l>` assigns a value that no later line overwrites, and the current values
have the label in any letter case, a look-up through `s` gives the value if the
selector is in lower case.  If it is not, the part is passed over, without an error,
and what counts is the top level. -/
theorem search_selected (host : Host) (hd : (({ host } : Reader).parseText t).result = .ok d)
    (hline : ({ host } : Reader).Settling t front here key value back)
    (hinside : ({ host } : Reader).Inside front here tag label)
    (htag : Text.lowerCase tag = s) (hlabel : Text.lowerCase label = Text.lowerCase l)
    (hkey : storedKey here.keepsCase key = k) (hlower : Text.lowerCase k = k) (hdot : '.' ∉ k)
    (hselector : Document.valueAt? [Document.currentKey, Document.selectorKey s] d =
      some (.scalar l))
    (hcurrent : Document.valueAt? [Document.currentKey, k] d = none) (required : Bool) :
    let found := (d.withSearchOrder [s]).search {} required k
    (Text.lowerCase l = l → found = .ok (some (.scalar value))) ∧
      (Text.lowerCase l ≠ l → (∀ v, d.get? k = some v → found = .ok (some v)) ∧
        (d.get? k = none → found = if required then .error (.missingKey k) else .ok none)) := by
  have hfind := Document.find?_selected hlower hdot hselector hcurrent
  have hvalue : Document.valueAt? [s, Text.lowerCase l, k] d = some (.scalar value) := by
    have hstands := hline.valueAt?_eq hd
    rwa [hinside.path_eq, htag, hlabel, hkey] at hstands
  dsimp only
  refine ⟨fun hl => ?_, fun hl => ?_⟩
  · rw [hl] at hvalue
    rw [hvalue, Option.some_or] at hfind
    rw [Document.search, hfind]
  · have hmissed : Document.valueAt? [s, l, k] d = none := by
      have hfolded := folded_parseText rfl hd
      show (d.section? s).bind (fun whole => (whole.section? l).bind (·.get? k)) = none
      cases hs : d.section? s with
      | none => rfl
      | some whole =>
        have hnone : whole.section? l = none :=
          (building_folded.inside hfolded hs).section?_eq_none hl
        rw [Option.bind_some, hnone]
        rfl
    rw [hmissed, Option.none_or] at hfind
    refine ⟨fun v hv => ?_, fun hnone => ?_⟩
    · rw [Document.search, hfind, hv]
    · rw [Document.search, hfind, hnone]
      dsimp only
      rw [hlower]

/-- The opening line has capital letters, the selector has none, and the key is at the
top level as well. -/
theorem search_selected_lower :
    let t := "<current>\ncurr_m = one\n</current>\n<M One>\nx = 1\nK = v\n</m>\nk = w\n".toList
    let d : Document := .ofList [
      ("current".toList, .nested (.ofList [("curr_m".toList, .scalar "one".toList)])),
      ("m".toList, .nested (.ofList [("one".toList, .nested (.ofList [
        ("x".toList, .scalar "1".toList), ("k".toList, .scalar "v".toList)]))])),
      ("k".toList, .scalar "w".toList)]
    (({} : Reader).parseText t).result = .ok d ∧
      (d.withSearchOrder ["m".toList]).search {} false "k".toList =
        .ok (some (.scalar "v".toList)) := by
  intro t d
  let before : List Statement := [.opening "current".toList none,
    .assignment "curr_m".toList "one".toList, .closing "current".toList]
  let between : List Statement := [.assignment "x".toList "1".toList]
  let back : List Statement := [.closing "m".toList, .assignment "k".toList "w".toList]
  let front := before ++ .opening "M".toList (some "One".toList) :: between
  have hd : (({} : Reader).parseText t).result = .ok d := by rfl
  obtain ⟨here, hline, hinside, hkey⟩ : ∃ here,
      ({} : Reader).Settling t front here "K".toList "v".toList back ∧
        ({} : Reader).Inside front here "M".toList "One".toList ∧
        storedKey here.keepsCase "K".toList = "k".toList := by
    have hclosing : ∀ s : Sections, ¬ ({} : Reader).Overwrites maxIncludeDepth
        ["m".toList, "one".toList, "k".toList] s (.closing "m".toList) :=
      fun s ⟨_, ha, _⟩ => absurd ha List.not_mem_nil
    have hother : ¬ ∃ a ∈ [Access.assigned ["k".toList]],
        a.Overwrites ["m".toList, "one".toList, "k".toList] := by decide
    refine ⟨_, ⟨by decide, rfl, .cons rfl (hclosing _) (.cons rfl hother .nil)⟩,
      ⟨before, between, _, _, rfl, by rfl, by rfl, by rfl, by rfl, by rfl⟩, by rfl⟩
  have hfound := search_selected (l := "one".toList) .bare hd hline hinside rfl rfl hkey rfl
    (by decide) rfl rfl false
  exact ⟨hd, hfound.1 rfl⟩

/-- The selector spells the label as the opening line does. -/
theorem search_selected_missed :
    let t := "k = w\n<current>\ncurr_m = One\n</current>\n<m One>\nk = v\n</m>\n".toList
    let front : List Statement := [.assignment "k".toList "w".toList,
      .opening "current".toList none, .assignment "curr_m".toList "One".toList,
      .closing "current".toList, .opening "m".toList (some "One".toList)]
    ∃ d here, (({} : Reader).parseText t).result = .ok d ∧
      ({} : Reader).Settling t front here "k".toList "v".toList [.closing "m".toList] ∧
      ({} : Reader).Inside front here "m".toList "One".toList ∧
      Document.valueAt? [Document.currentKey, Document.selectorKey "m".toList] d =
        some (.scalar "One".toList) ∧
      Document.valueAt? [Document.currentKey, "k".toList] d = none ∧
      (d.withSearchOrder ["m".toList]).search {} false "k".toList =
        .ok (some (.scalar "w".toList)) := by
  intro t front
  refine ⟨_, _, rfl, ⟨by decide, rfl, ?_⟩,
    ⟨front.dropLast, [], _, _, by rfl, by rfl, by rfl, by rfl, by rfl, by rfl⟩, rfl, rfl, rfl⟩
  exact .cons rfl (fun ⟨_, ha, _⟩ => absurd ha List.not_mem_nil) .nil

end Reader

end Wcl
