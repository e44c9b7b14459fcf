import Wcl.Proofs.Markup.Built

/-!
# Where keys keep their case

Whether keys keep their case is one switch.  The tag of an opening line turns it
on, and a closing line with such a name turns it off, so it depends on the lines
in front and on nothing else (`Statement.KeepsBehind`).

The switch does not follow the open sections.  While it is on, a section that
keeps its case is open (`Sections.inKeeping_of_run`).  The converse needs that no
such section is opened inside another one, or as a label
(`Sections.KeptApart`): the closing line of the inner one turns the switch off
for the rest of the outer one, and a label does not turn it on.
-/

namespace Wcl

/-! ### The lines in front -/

namespace Statement

/-- An opening line has turned the switch on, and no closing line behind it off. -/
def KeepsBehind (front : List Statement) : Prop :=
  ∃ a tag label b, front = a ++ .opening tag label :: b ∧
    Text.lowerCase tag ∈ caseKeepingKeys ∧
      ∀ close, .closing close ∈ b → Text.lowerCase close ∉ caseKeepingKeys

theorem not_keepsBehind_nil : ¬ KeepsBehind [] := by
  rintro ⟨a, _, _, _, h, _⟩
  cases a <;> cases h

/-- It is the last line that decides, or the lines before it. -/
theorem keepsBehind_concat {front : List Statement} {st : Statement} :
    KeepsBehind (front ++ [st]) ↔
      (∃ tag label, st = .opening tag label ∧ Text.lowerCase tag ∈ caseKeepingKeys) ∨
      KeepsBehind front ∧ ∀ close, st = .closing close →
        Text.lowerCase close ∉ caseKeepingKeys := by
  constructor
  · rintro ⟨a, tag, label, b, h, htag, hb⟩
    rcases List.eq_nil_or_concat' b with rfl | ⟨b, last, rfl⟩
    · exact .inl ⟨tag, label, (List.append_inj' h rfl).2 |> List.singleton_inj.1, htag⟩
    · rw [← List.cons_append, ← List.append_assoc] at h
      obtain ⟨hfront, hlast⟩ := List.append_inj' h rfl
      cases hlast
      refine .inr ⟨⟨a, tag, label, b, hfront, htag, fun close hclose => ?_⟩, ?_⟩
      · exact hb close (List.mem_append_left _ hclose)
      · rintro close rfl
        exact hb close (List.mem_append_right _ (List.mem_singleton_self _))
  · rintro (⟨tag, label, rfl, htag⟩ | ⟨⟨a, tag, label, b, rfl, htag, hb⟩, hst⟩)
    · exact ⟨front, tag, label, [], rfl, htag, fun _ h => absurd h List.not_mem_nil⟩
    · refine ⟨a, tag, label, b ++ [st], by simp, htag, fun close hclose => ?_⟩
      rcases List.mem_append.1 hclose with hclose | hclose
      · exact hb close hclose
      · exact hst close (List.mem_singleton.1 hclose).symm

/-- Whether keys keep their case behind a line. -/
def keepsAfter : Statement → Bool → Bool
  | .opening tag _, keeps => keepsOpened keeps (Text.lowerCase tag)
  | .closing tag, keeps => keepsClosed keeps (Text.lowerCase tag)
  | _, keeps => keeps

theorem keepsAfter_iff {st : Statement} {keeps : Bool} :
    st.keepsAfter keeps = true ↔
      (∃ tag label, st = .opening tag label ∧ Text.lowerCase tag ∈ caseKeepingKeys) ∨
      keeps = true ∧ ∀ close, st = .closing close →
        Text.lowerCase close ∉ caseKeepingKeys := by
  cases st with
  | opening tag label => simp [keepsAfter, keepsOpened, or_comm]
  | closing tag => simp [keepsAfter, keepsClosed]
  | _ => simp [keepsAfter]

end Statement

/-! ### The open sections -/

namespace Sections

variable {s s' : Sections} {st : Statement} {front : List Statement}

/-- A section that keeps its case is open, as a tag or as a label. -/
def InKeeping (s : Sections) : Prop := ∃ frame ∈ s.frames, frame.key ∈ caseKeepingKeys

instance (s : Sections) : Decidable s.InKeeping :=
  inferInstanceAs (Decidable (∃ frame ∈ s.frames, _))

/-- The frames that an opening line puts in front of the others. -/
theorem frames_of_opened {tag : Text} {label : Option Text} (h : s.opened tag label = .ok s') :
    s'.frames = label.toList.map (fun l => ⟨Text.lowerCase l, true⟩) ++
      ⟨Text.lowerCase tag, false⟩ :: s.frames := by
  rw [opened] at h
  split at h
  · cases h
  · cases label <;> cases h <;> rfl

/-- The frames that a closing line takes away: the one it names, and labels. -/
theorem exists_gone_of_closed {tag : Text} (h : s.closed tag = .ok s') :
    ∃ gone, s.frames = gone ++ s'.frames ∧
      (∃ frame ∈ gone, frame.key = Text.lowerCase tag) ∧
      ∀ frame ∈ gone, frame.isLabel = true ∨ frame.key = Text.lowerCase tag := by
  rcases frames_of_closed h with ⟨frame, hframes, htag⟩ | ⟨label, outer, hframes, hl, _, htag⟩
  · exact ⟨[frame], hframes, ⟨frame, List.mem_singleton_self _, htag.symm⟩,
      List.forall_mem_singleton.2 (.inr htag.symm)⟩
  · exact ⟨[label, outer], hframes, ⟨outer, by simp, htag.symm⟩, by simp [hl, htag]⟩

/-- Every line sets the switch as it would anywhere. -/
theorem keepsCase_step (h : s.step st = .ok s') : s'.keepsCase = st.keepsAfter s.keepsCase := by
  cases st with
  | opening tag label =>
    rw [step, opened] at h
    split at h
    · cases h
    · cases label <;> cases h <;> rfl
  | closing tag =>
    obtain ⟨root, frames, keeps⟩ := s
    rcases frames_of_closed h with ⟨frame, rfl, htag⟩ | ⟨label, outer, rfl, hl, hne, htag⟩
    · rw [step, closed_top _ _ _ htag] at h
      rw [← Except.ok.inj h, Statement.keepsAfter, htag]
    · rw [step, closed_both _ _ _ hl hne htag] at h
      rw [← Except.ok.inj h, Statement.keepsAfter, htag]
  | _ =>
    cases h
    rfl

/-- The switch depends on the lines in front. -/
theorem keepsCase_iff_of_run (h : run front {} = .ok s) :
    s.keepsCase = true ↔ Statement.KeepsBehind front := by
  induction front using List.reverseRecOn generalizing s with
  | nil =>
    cases h
    exact iff_of_false Bool.false_ne_true Statement.not_keepsBehind_nil
  | append_singleton front st ih =>
    obtain ⟨s₁, hrun, hstep⟩ := run_concat_eq_ok.1 h
    rw [keepsCase_step hstep, Statement.keepsAfter_iff, ih hrun, Statement.keepsBehind_concat]

/-! ### While the switch is on -/

/-- A section that keeps its case is open, and not as a label. -/
def InKeepingTag (s : Sections) : Prop :=
  ∃ frame ∈ s.frames, frame.isLabel = false ∧ frame.key ∈ caseKeepingKeys

theorem InKeepingTag.inKeeping (h : s.InKeepingTag) : s.InKeeping := by
  obtain ⟨frame, hmem, _, hkey⟩ := h
  exact ⟨frame, hmem, hkey⟩

theorem inKeepingTag_step (hs : s.keepsCase = true → s.InKeepingTag) (h : s.step st = .ok s')
    (hkeeps : s'.keepsCase = true) : s'.InKeepingTag := by
  rw [keepsCase_step h] at hkeeps
  cases st with
  | opening tag label =>
    have hframes := frames_of_opened h
    rcases Statement.keepsAfter_iff.1 hkeeps with ⟨_, _, heq, htag⟩ | ⟨hon, _⟩
    · cases heq
      exact ⟨⟨Text.lowerCase tag, false⟩, by simp [hframes], rfl, htag⟩
    · obtain ⟨frame, hmem, hkeeping⟩ := hs hon
      exact ⟨frame, by simp [hframes, hmem], hkeeping⟩
  | closing tag =>
    obtain ⟨gone, hframes, _, hgone⟩ := exists_gone_of_closed h
    obtain ⟨hon, hclose⟩ := (Statement.keepsAfter_iff.1 hkeeps).resolve_left (by simp)
    obtain ⟨frame, hmem, hlabel, hkey⟩ := hs hon
    rw [hframes] at hmem
    refine ⟨frame, (List.mem_append.1 hmem).resolve_left fun hmem => ?_, hlabel, hkey⟩
    -- It would be a label, or the section that the line names.
    rcases hgone frame hmem with hl | htag
    · rw [hlabel] at hl
      cases hl
    · exact hclose tag rfl (htag ▸ hkey)
  | _ =>
    cases h
    exact hs hkeeps

theorem inKeepingTag_of_run (h : run front {} = .ok s) (hkeeps : s.keepsCase = true) :
    s.InKeepingTag := by
  induction front using List.reverseRecOn generalizing s with
  | nil =>
    cases h
    cases hkeeps
  | append_singleton front st ih =>
    obtain ⟨s₁, hrun, hstep⟩ := run_concat_eq_ok.1 h
    exact inKeepingTag_step (ih hrun) hstep hkeeps

/-! ### Sections that are kept apart -/

/-- The open sections that keep their case are no labels and not inside one
another, and the switch is on inside them. -/
structure Apart (s : Sections) : Prop where
  labels : ∀ frame ∈ s.frames, frame.isLabel = true → frame.key ∉ caseKeepingKeys
  single : s.frames.Pairwise fun inner outer =>
    inner.key ∈ caseKeepingKeys → outer.key ∉ caseKeepingKeys
  keeps : s.InKeeping → s.keepsCase = true

/-- A line that opens neither a label that keeps its case nor a section that does
inside another one. -/
def OpensApart (s : Sections) : Statement → Prop
  | .opening tag label => (∀ l ∈ label, Text.lowerCase l ∉ caseKeepingKeys) ∧
      (Text.lowerCase tag ∈ caseKeepingKeys → ¬ s.InKeeping)
  | _ => True

theorem Apart.opening (hs : s.Apart) {tag : Text} {label : Option Text}
    (hst : s.OpensApart (.opening tag label)) (h : s.opened tag label = .ok s') : s'.Apart := by
  obtain ⟨hlabel, htag⟩ := hst
  have hframes := frames_of_opened h
  have hstep : s.step (.opening tag label) = .ok s' := h
  have hkeeps : s'.keepsCase = keepsOpened s.keepsCase (Text.lowerCase tag) :=
    keepsCase_step hstep
  have hnew : ∀ frame ∈ label.toList.map (fun l => Frame.mk (Text.lowerCase l) true),
      frame.key ∉ caseKeepingKeys := by
    intro frame hmem
    obtain ⟨l, hl, rfl⟩ := List.mem_map.1 hmem
    exact hlabel l (Option.mem_toList.1 hl)
  refine ⟨fun frame hmem hl => ?_, ?_, ?_⟩
  · rw [hframes] at hmem
    rcases List.mem_append.1 hmem with hmem | hmem
    · exact hnew frame hmem
    · rcases List.mem_cons.1 hmem with rfl | hmem
      · cases hl
      · exact hs.labels frame hmem hl
  · rw [hframes, List.pairwise_append, List.pairwise_cons]
    refine ⟨?_, ⟨fun outer hmem htag' hkey => htag htag' ⟨outer, hmem, hkey⟩, hs.single⟩, ?_⟩
    · exact List.Pairwise.imp_of_mem (fun hmem _ _ hkey => absurd hkey (hnew _ hmem))
        (List.pairwise_of_forall fun _ _ => trivial)
    · exact fun inner hmem _ _ hkey => absurd hkey (hnew inner hmem)
  · rintro ⟨frame, hmem, hkey⟩
    rw [hframes] at hmem
    rw [hkeeps, keepsOpened, Bool.or_eq_true, List.contains_iff_mem]
    rcases List.mem_append.1 hmem with hmem | hmem
    · exact absurd hkey (hnew frame hmem)
    · rcases List.mem_cons.1 hmem with rfl | hmem
      · exact .inr hkey
      · exact .inl (hs.keeps ⟨frame, hmem, hkey⟩)

theorem Apart.closing (hs : s.Apart) {tag : Text} (h : s.closed tag = .ok s') : s'.Apart := by
  obtain ⟨gone, hframes, ⟨named, hnamed, hname⟩, _⟩ := exists_gone_of_closed h
  have hstep : s.step (.closing tag) = .ok s' := h
  have hkeeps : s'.keepsCase = keepsClosed s.keepsCase (Text.lowerCase tag) :=
    keepsCase_step hstep
  have hmem : ∀ frame ∈ s'.frames, frame ∈ s.frames := fun frame hmem =>
    hframes ▸ List.mem_append_right gone hmem
  have hsingle := hs.single
  rw [hframes, List.pairwise_append] at hsingle
  obtain ⟨_, hrest, hacross⟩ := hsingle
  refine ⟨fun frame h => hs.labels frame (hmem frame h), hrest, ?_⟩
  rintro ⟨frame, hframe, hkey⟩
  have hother : Text.lowerCase tag ∉ caseKeepingKeys := fun htag =>
    hacross named hnamed frame hframe (hname ▸ htag) hkey
  rw [hkeeps, keepsClosed, hs.keeps ⟨frame, hmem frame hframe, hkey⟩]
  simpa using hother

theorem Apart.step (hs : s.Apart) (hst : s.OpensApart st) (h : s.step st = .ok s') : s'.Apart := by
  cases st with
  | opening tag label => exact hs.opening hst h
  | closing tag => exact hs.closing h
  | assignment key value =>
    cases h
    exact ⟨hs.labels, hs.single, hs.keeps⟩
  | _ =>
    cases h
    exact hs

/-- No line opens a section that keeps its case inside another one, or as a
label. -/
def KeptApart : Sections → List Statement → Prop
  | _, [] => True
  | s, st :: rest => s.OpensApart st ∧ match s.step st with
    | .ok s' => s'.KeptApart rest
    | .error _ => True

instance (s : Sections) : (st : Statement) → Decidable (s.OpensApart st)
  | .opening _ _ => inferInstanceAs (Decidable (_ ∧ _))
  | .blank | .includeFile _ | .includeCall _ _ | .badDirective _ | .closing _
  | .assignment _ _ | .other _ => .isTrue trivial

instance decidableKeptApart : (s : Sections) → (front : List Statement) →
    Decidable (s.KeptApart front)
  | _, [] => .isTrue trivial
  | s, st :: rest =>
    have : Decidable (match s.step st with
        | .ok s' => s'.KeptApart rest
        | .error _ => True) :=
      match s.step st with
      | .ok s' => decidableKeptApart s' rest
      | .error _ => .isTrue trivial
    inferInstanceAs (Decidable (_ ∧ _))

theorem Apart.run (hs : s.Apart) (hfront : s.KeptApart front) (h : run front s = .ok s') :
    s'.Apart := by
  induction front generalizing s with
  | nil =>
    cases h
    exact hs
  | cons st rest ih =>
    obtain ⟨hst, hrest⟩ := hfront
    obtain ⟨s₁, hstep, h⟩ := except_bind_eq_ok.1 h
    rw [hstep] at hrest
    exact ih (hs.step hst hstep) hrest h

theorem apart_empty : Apart {} :=
  ⟨fun _ h => absurd h List.not_mem_nil, .nil, fun ⟨_, h, _⟩ => absurd h List.not_mem_nil⟩

end Sections

namespace Reader

/-- A line of a text that is accepted stands between two runs. -/
theorem exists_run_of_parseText {r : Reader} {t : Text} (h : Source.Undirected t) {d : Document}
    (hd : (r.parseText t).result = .ok d) {front back : List Statement} {st : Statement}
    (hst : Statement.ofText t = front ++ st :: back) :
    ∃ s s', Sections.run front {} = .ok s ∧ s.step st = .ok s' ∧
      Sections.run back s' >>= Sections.finished = .ok d := by
  obtain ⟨number, hresult⟩ := r.result_parseText (Statement.isDirective_ofText h)
  rw [hresult, mapError_eq_ok, hst, Sections.run_append, bind_assoc] at hd
  obtain ⟨s, hfront, hd⟩ := except_bind_eq_ok.1 hd
  rw [Sections.run_cons, bind_assoc] at hd
  obtain ⟨s', hstep, hback⟩ := except_bind_eq_ok.1 hd
  exact ⟨s, s', hfront, hstep, hback⟩

/-- **Keys keep their case by the lines in front.**  The key of an assignment
keeps its case if and only if a tag in front has turned the switch on and no
closing line behind it off.  Then a section that keeps its case is open; and the
other way round, if such sections have been kept apart. -/
theorem parseText_case (r : Reader) {t : Text} (h : Source.Undirected t) {d : Document}
    (hd : (r.parseText t).result = .ok d) {front back : List Statement} {key value : Text}
    (hst : Statement.ofText t = front ++ .assignment key value :: back) :
    ∃ s, Sections.run front {} = .ok s ∧
      Sections.run back (s.modify (·.insert (storedKey s.keepsCase key) (.scalar value))) >>=
        Sections.finished = .ok d ∧
      (s.keepsCase = true ↔ Statement.KeepsBehind front) ∧
      (s.keepsCase = true → s.InKeeping) ∧
      (Sections.KeptApart {} front → (s.keepsCase = true ↔ s.InKeeping)) := by
  obtain ⟨s, s', hrun, hstep, hback⟩ := exists_run_of_parseText h hd hst
  cases hstep
  have hopen : s.keepsCase = true → s.InKeeping := fun hkeeps =>
    (Sections.inKeepingTag_of_run hrun hkeeps).inKeeping
  exact ⟨s, hrun, hback, Sections.keepsCase_iff_of_run hrun, hopen,
    fun hapart => ⟨hopen, (Sections.apart_empty.run hapart hrun).keeps⟩⟩

/-- Keys inside a section that keeps its case and behind it. -/
theorem parseText_case_inside :
    let t := "<exec>\n<CmdLine>\n<in>\nOutFile = x\n</in>\n</cmdline>\nName = y\n</exec>\n".toList
    let front : List Statement :=
      [.opening "exec".toList none, .opening "CmdLine".toList none, .opening "in".toList none]
    let between : List Statement := [.closing "in".toList, .closing "cmdline".toList]
    ∃ s s', Sections.run front {} = .ok s ∧ s.keepsCase = true ∧ s.InKeeping ∧
      Sections.run (front ++ .assignment "OutFile".toList "x".toList :: between) {} = .ok s' ∧
      s'.keepsCase = false ∧ ¬ s'.InKeeping ∧
      (({} : Reader).parseText t).result = .ok (.ofList [("exec".toList, .nested (.ofList [
        ("cmdline".toList, .nested (.ofList [("in".toList,
          .nested (.ofList [("OutFile".toList, .scalar "x".toList)]))])),
        ("name".toList, .scalar "y".toList)]))]) := by
  intro t front between
  have ht : Source.Undirected t := by decide
  have hd : (({} : Reader).parseText t).result = .ok (.ofList [("exec".toList, .nested (.ofList [
      ("cmdline".toList, .nested (.ofList [("in".toList,
        .nested (.ofList [("OutFile".toList, .scalar "x".toList)]))])),
      ("name".toList, .scalar "y".toList)]))]) := by rfl
  have hfirst : Statement.ofText t = front ++ .assignment "OutFile".toList "x".toList ::
      (between ++ [.assignment "Name".toList "y".toList, .closing "exec".toList]) := by decide
  have hsecond : Statement.ofText t = (front ++ .assignment "OutFile".toList "x".toList ::
      between) ++ .assignment "Name".toList "y".toList :: [.closing "exec".toList] := by decide
  obtain ⟨s, hrun, _, hbehind, hopen, _⟩ := parseText_case {} ht hd hfirst
  obtain ⟨s', hrun', _, _, _, hapart'⟩ := parseText_case {} ht hd hsecond
  have hkeeps : s.keepsCase = true := hbehind.2
    ⟨[.opening "exec".toList none], "CmdLine".toList, none, [.opening "in".toList none], rfl,
      by decide, by simp⟩
  have hlower : s'.keepsCase = false := by
    cases hrun'
    rfl
  have hiff := hapart' (by decide)
  refine ⟨s, s', hrun, hkeeps, hopen hkeeps, hrun', hlower, fun hin => ?_, hd⟩
  rw [hiff.2 hin] at hlower
  cases hlower

/-- Inside an outer section that keeps its case, behind an inner one, and in a
label, keys are kept in lower case. -/
theorem parseText_case_lost :
    let nested := "<cmdline>\n<replace>\n</replace>\nKey = v\n</cmdline>\n".toList
    let labelled := "<a cmdline>\nKey = v\n</a>\n".toList
    (∃ front back s, Statement.ofText nested =
        front ++ .assignment "Key".toList "v".toList :: back ∧
      Sections.run front {} = .ok s ∧ s.InKeeping ∧
      (({} : Reader).parseText nested).result = .ok (.ofList [("cmdline".toList,
        .nested (.ofList [("replace".toList, .nested .empty),
          ("key".toList, .scalar "v".toList)]))])) ∧
    (∃ front back s, Statement.ofText labelled =
        front ++ .assignment "Key".toList "v".toList :: back ∧
      Sections.run front {} = .ok s ∧ s.InKeeping ∧
      (({} : Reader).parseText labelled).result = .ok (.ofList [("a".toList,
        .nested (.ofList [("cmdline".toList,
          .nested (.ofList [("key".toList, .scalar "v".toList)]))]))])) := by
  refine ⟨⟨[.opening "cmdline".toList none, .opening "replace".toList none,
      .closing "replace".toList], [.closing "cmdline".toList], _, by decide, rfl, by decide,
      by rfl⟩,
    ⟨[.opening "a".toList (some "cmdline".toList)], [.closing "a".toList], _, by decide, rfl,
      by decide, by rfl⟩⟩

end Reader

end Wcl
