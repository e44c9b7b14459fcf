import Wcl.Proofs.Markup.Access
import Wcl.Proofs.Markup.Lines
import Wcl.Proofs.Markup.Written
import Wcl.Proofs.Template.Substitution

/-!
# Including a file is pasting its text

An include at the top level reads the file from an empty document and merges
what comes out; pasting the file's text goes on with the document that is there.
Both make the same document, if the file's text opens no path as a section that
it has assigned a scalar before: `Reader.parseText_include`.

The text in front leaves nothing open and keys in lower case
(`Body.keepsAfter_false`), and the body of the file's text commutes with merging
(`Body.makes`).
-/

namespace Wcl

/-! ### The case of keys behind a body -/

theorem keepsClosed_keepsOpened_of_false {key : Text} {g : Bool → Bool} (hg : g false = false) :
    keepsClosed (g (keepsOpened false key)) key = false := by
  unfold keepsClosed keepsOpened
  cases caseKeepingKeys.contains key with
  | true => simp
  | false => simp [hg]

/-- Behind the last line of a body that begins with keys in lower case, they
are again. -/
theorem Body.keepsAfter_false (b : Body) : b.keepsAfter false = false := by
  induction b with
  | nil => rfl
  | plain statement rest ih => exact ih
  | single tag close inner rest ihi ih =>
    rw [keepsAfter, keepsClosed_keepsOpened_of_false ihi, ih]
  | labelled tag label closeLabel close inner outer rest ihi iho ih =>
    have hbetween : outer.keepsAfter (keepsClosed (inner.keepsAfter false)
        (Text.lowerCase label)) = false := by
      rw [ihi, keepsClosed, Bool.false_and, iho]
    rw [keepsAfter]
    rw [keepsClosed_keepsOpened_of_false (g := fun keeps => outer.keepsAfter
      (keepsClosed (inner.keepsAfter keeps) (Text.lowerCase label))) hbetween, ih]
  | pair tag label close inner rest ihi ih =>
    rw [keepsAfter, keepsClosed_keepsOpened_of_false ihi, ih]

/-! ### The path of an include -/

namespace Environment

theorem expandVariables_of_notMem (env : Environment) {path : Text} (h : '$' ∉ path) :
    env.expandVariables path = path := by
  rw [expandVariables]
  induction path with
  | nil => rfl
  | cons c r ih =>
    obtain ⟨hc, hr⟩ := not_or.1 (mt List.mem_cons.2 h)
    rw [expandFrom, if_neg (Ne.symm hc), ih hr]

theorem expandHome_of_notMem (env : Environment) {path : Text} (h : '~' ∉ path) :
    env.expandHome path = path := by
  unfold expandHome
  split
  · exact absurd (List.mem_cons_self ..) h
  · rfl

end Environment

/-! ### The line of an include -/

/-- The line that includes a file. -/
def includeLine (path : Text) : Text := '<' :: '<' :: ("include".toList ++ ' ' :: path) ++ ['>', '>']

theorem notMem_includeLine {c : Char} (hmark : c ≠ '<' ∧ c ≠ ' ' ∧ c ≠ '>')
    (hword : c ∉ "include".toList) {path : Text} (hpath : c ∉ path) : c ∉ includeLine path := by
  simp only [includeLine, List.mem_append, List.mem_cons, List.not_mem_nil]
  tauto

theorem trim_includeLine (path : Text) : Text.trim (includeLine path) = includeLine path := by
  have hends : includeLine path =
      '<' :: ('<' :: ("include".toList ++ ' ' :: path) ++ ['>'] ++ ['>']) := by
    rw [List.append_assoc]
    rfl
  rw [hends]
  exact (Text.tight_cons_concat rfl rfl _).trim_eq

namespace Statement

theorem includePath?_includeLine {path : Text} (hne : path ≠ [])
    (hblank : ∀ c ∈ path, isBlank c = false) : includePath? (includeLine path) = some path := by
  have hdirective : directive? "include".toList (includeLine path) = some (path ++ ['>', '>']) := by
    have hword : Text.trimStart ("include".toList ++ ' ' :: (path ++ ['>', '>'])) =
        "include".toList ++ ' ' :: (path ++ ['>', '>']) := Text.trimStart_cons rfl _
    have hstart : Text.trimStart (path ++ ['>', '>']) = path ++ ['>', '>'] := by
      obtain ⟨c, rest, rfl⟩ := List.exists_cons_of_ne_nil hne
      exact Text.trimStart_cons (hblank c (List.mem_cons_self ..)) _
    have hopen : includeLine path =
        "<<".toList ++ ("include".toList ++ ' ' :: (path ++ ['>', '>'])) := by
      simp [includeLine]
    rw [directive?, trim_includeLine, hopen, Text.afterStart?_append, Option.bind_eq_bind,
      Option.bind_some, hword, Text.afterStart?_append, Option.bind_some, afterBlanks?, hstart]
    rfl
  have hend : Text.beforeEnd? ">>".toList (path ++ ['>', '>']) = some path := by
    have hsuffix : ">>".toList.isSuffixOf (path ++ ['>', '>']) = true :=
      List.isSuffixOf_iff_suffix.2 (List.suffix_append path ['>', '>'])
    rw [Text.beforeEnd?, if_pos hsuffix]
    simp
  have htrim : Text.trimEnd path = path := by
    rw [Text.trimEnd_eq_rdropWhile, List.rdropWhile_eq_self_iff]
    intro h
    simp [hblank _ (List.getLast_mem h)]
  have hany : path.any isBlank = false := List.any_eq_false.2 fun c hc => by simp [hblank c hc]
  rw [includePath?, hdirective, Option.bind_eq_bind, Option.bind_some, hend, Option.bind_some]
  simp [htrim, hany, hne]

/-- The line of an include says what it was written for. -/
theorem ofText_includeLine {path : Text} (hne : path ≠ [])
    (hclean : ∀ c ∈ path, isBlank c = false ∧ c ≠ '#') :
    ofText (includeLine path ++ ['\n']) = [.includeFile path] := by
  have hhash : '#' ∉ includeLine path :=
    notMem_includeLine (by decide) (by decide) fun hm => (hclean _ hm).2 rfl
  have hfeed : '\n' ∉ includeLine path :=
    notMem_includeLine (by decide) (by decide) fun hm => by cases (hclean _ hm).1
  have halone : Source.Alone (includeLine path) :=
    ⟨hfeed, '<' :: '<' :: ("include".toList ++ ' ' :: path) ++ ['>'], '>',
      by simp [includeLine], rfl, by decide⟩
  have hlines := ofText_lines (List.forall_mem_singleton.2 halone)
  rw [List.flatMap_singleton] at hlines
  have hpath := includePath?_includeLine hne fun c hc => (hclean c hc).1
  have hline : ofLine (includeLine path) = .includeFile path := by
    rw [ofLine, bareLine, Text.cutAt_of_notMem hhash, ofBareLine, trim_includeLine, hpath]
    rfl
  rw [hlines, List.map_singleton, hline]

end Statement

namespace Reader

variable {r : Reader}

/-- A path without signs is the path of the file. -/
theorem result_includePath {path : Text} (hdollar : '$' ∉ path) (htilde : '~' ∉ path)
    (source : Text) (number : Nat) (root : Document) :
    (r.includePath source number root path).result = .ok path := by
  refine Traced.bind_eq_ok.2 ⟨path, (r.context root).resolveSingle_of_notMem hdollar, ?_⟩
  refine Traced.bind_eq_ok.2 ⟨(), rfl, Traced.bind_eq_ok.2 ⟨(), rfl, ?_⟩⟩
  rw [Environment.expandPath, Environment.expandHome_of_notMem _ htilde,
    Environment.expandVariables_of_notMem _ hdollar]
  rfl

/-! ### Lines one after another -/

/-- Behind lines that the sections are read from goes on what follows them. -/
theorem readLines_append {lines : List LogicalLine} (hr : ∀ line ∈ lines, line.2 ≠ none)
    (hd : ∀ st ∈ Statement.ofLines lines, st.isDirective = false) {s s' : Sections}
    (hrun : Sections.run (Statement.ofLines lines) s = .ok s')
    (load : Nat → Sections → Text → Traced Document) (source : Text) (last : Nat)
    (rest : List LogicalLine) :
    ∃ last', (r.readLines load source last (lines ++ rest) s).result =
      (r.readLines load source last' rest s').result := by
  induction lines generalizing last s with
  | nil =>
    cases hrun
    exact ⟨last, rfl⟩
  | cons line lines ih =>
    obtain ⟨number, l⟩ := line
    cases l with
    | none => exact absurd rfl (hr _ (List.mem_cons_self ..))
    | some l =>
      have hcons : Statement.ofLines ((number, some l) :: lines) =
          Statement.ofLine l :: Statement.ofLines lines := rfl
      rw [hcons] at hd hrun
      have hstep := r.result_step (hd _ (List.mem_cons_self ..)) load source number s
      rw [Sections.run_cons] at hrun
      rw [List.cons_append, readLines, Traced.result_bind, hstep]
      cases hs : s.step (Statement.ofLine l) with
      | error fault =>
        rw [hs] at hrun
        cases hrun
      | ok s₁ =>
        rw [hs] at hrun
        exact ih (fun line h => hr line (List.mem_cons_of_mem _ h))
          (fun st h => hd st (List.mem_cons_of_mem _ h)) hrun number

/-- A text of a body is read from any depth of includes. -/
theorem result_readSource {b : Body} (hb : b.WellNested none) {t : Text}
    (hst : b.statements = Statement.ofText t) (depth : Nat) (source : Text) :
    (r.readSource depth source false (.ofText t)).result = .ok (b.apply false .empty) := by
  have hlines : ∀ load, (r.readLines load source 0 (Source.ofText t).logicalLines {}).result =
      .ok (b.apply false .empty) := by
    intro load
    have hplain : ∀ st ∈ Statement.ofText t, st.isDirective = false := hst ▸ hb.isDirective
    obtain ⟨number, hresult⟩ :=
      r.result_readLines (Source.logicalLines_ofText t) hplain load source 0 {}
    rw [hresult]
    change (Sections.run (Statement.ofText t) {} >>= _).mapError _ = _
    rw [← hst, run_body hb]
    rfl
  cases depth <;> exact hlines _

/-! ### The two texts -/

/-- A text of one statement has one logical line. -/
theorem exists_line_of_ofLines {lines : List LogicalLine} (hr : ∀ line ∈ lines, line.2 ≠ none)
    {st : Statement} (h : Statement.ofLines lines = [st]) :
    ∃ l, lines.map Prod.snd = [some l] ∧ Statement.ofLine l = st := by
  match lines, hr with
  | [], _ => cases h
  | (_, none) :: _, hr => exact absurd rfl (hr _ (List.mem_cons_self ..))
  | [(_, some l)], _ => exact ⟨l, rfl, (List.cons.inj h).1⟩
  | _ :: (_, none) :: _, hr =>
    exact absurd rfl (hr _ (List.mem_cons_of_mem _ (List.mem_cons_self ..)))
  | (_, some _) :: (_, some _) :: _, _ => cases (List.cons.inj h).2

variable {b₁ b₂ : Body} {t₁ t₂ : Text}

theorem result_parseText_append (hb₁ : b₁.WellNested none) (hb₂ : b₂.WellNested none)
    (hst₁ : b₁.statements = Statement.ofText t₁) (hst₂ : b₂.statements = Statement.ofText t₂)
    (hlast : t₁.getLast? = some '\n') (hended : Source.Ended t₁) :
    (r.parseText (t₁ ++ t₂)).result = .ok (b₂.apply false (b₁.apply false .empty)) := by
  have hst : Statement.ofText (t₁ ++ t₂) = b₁.statements ++ b₂.statements := by
    rw [Statement.ofText_append hlast hended, hst₁, hst₂]
  have hplain : ∀ st ∈ Statement.ofText (t₁ ++ t₂), st.isDirective = false := by
    rw [hst, List.forall_mem_append]
    exact ⟨hb₁.isDirective, hb₂.isDirective⟩
  obtain ⟨number, hresult⟩ := r.result_parseText hplain
  have hrun := run_statements [] hb₂ id (b₁.apply false .empty) false
  rw [hresult, hst, Sections.run_append_of_run (run_body hb₁), b₁.keepsAfter_false]
  change (Sections.run b₂.statements (Sections.changed id _ [] false) >>= _).mapError _ = _
  rw [hrun]
  rfl

/-- The file of an include is read. -/
theorem result_included (hb : b₂.WellNested none) (hst : b₂.statements = Statement.ofText t₂)
    {path : Text} (hdollar : '$' ∉ path) (htilde : '~' ∉ path)
    (hread : r.host.read path = .ok (Source.ofText t₂)) (source : Text) (number depth k : Nat)
    (root : Document) :
    (do
      let path ← r.includePath source number root path
      let file ← r.openFile k false path
      r.readSource depth path false file : Traced Document).result =
      .ok (b₂.apply false .empty) := by
  refine Traced.bind_eq_ok.2 ⟨path, result_includePath hdollar htilde _ _ _, ?_⟩
  refine Traced.bind_eq_ok.2 ⟨.ofText t₂, ?_, result_readSource hb hst depth path⟩
  refine Traced.bind_eq_ok.2 ⟨(), rfl, ?_⟩
  rw [hread]
  rfl

theorem result_parseText_include (hb₁ : b₁.WellNested none) (hb₂ : b₂.WellNested none)
    (hst₁ : b₁.statements = Statement.ofText t₁) (hst₂ : b₂.statements = Statement.ofText t₂)
    (hlast : t₁.getLast? = some '\n') (hended : Source.Ended t₁) {line path : Text}
    (hline : Statement.ofText line = [.includeFile path]) (hdollar : '$' ∉ path)
    (htilde : '~' ∉ path) (hread : r.host.read path = .ok (Source.ofText t₂)) :
    (r.parseText (t₁ ++ line)).result =
      .ok ((b₁.apply false .empty).update (b₂.apply false .empty)) := by
  obtain ⟨l, hl, hstatement⟩ := exists_line_of_ofLines (Source.logicalLines_ofText line) hline
  have hlines := Source.map_snd_logicalLines_append hlast hended line
  rw [hl] at hlines
  obtain ⟨front, back, hsplit, hfront, hback⟩ := List.map_eq_append_iff.1 hlines
  obtain ⟨⟨number, l'⟩, rfl, rfl⟩ := List.map_eq_singleton_iff.1 hback
  have hofLines : Statement.ofLines front = b₁.statements := by
    rw [Statement.ofLines_eq, hfront, ← Statement.ofLines_eq, hst₁]
    rfl
  have hreadable : ∀ line' ∈ front, line'.2 ≠ none := fun line' hmem =>
    Source.logicalLines_ofText (t₁ ++ line) _ (hsplit ▸ List.mem_append_left _ hmem)
  have hrun : Sections.run (Statement.ofLines front) {} =
      .ok ⟨b₁.apply false .empty, [], false⟩ := by
    rw [hofLines, run_body hb₁, b₁.keepsAfter_false]
  obtain ⟨last, hresult⟩ := r.readLines_append hreadable (hofLines ▸ hb₁.isDirective) hrun
    _ "stdin".toList 0 [(number, some l)]
  rw [parseText, parse, maxIncludeDepth, readSource, hsplit, hresult]
  refine Traced.bind_eq_ok.2
    ⟨⟨(b₁.apply false .empty).update (b₂.apply false .empty), [], false⟩, ?_, rfl⟩
  rw [hstatement]
  exact Traced.bind_eq_ok.2 ⟨_, result_included hb₂ hst₂ hdollar htilde hread _ _ _ _ _, rfl⟩

/-- **Including a file is pasting its text.**  Behind a text that is complete, a
line that includes a file makes the same document as the text of the file, if
that opens no path as a section that it has assigned a scalar before. -/
theorem parseText_include (r : Reader) {t₁ t₂ line path : Text} {d₁ d₂ : Document}
    (h₁ : Source.Undirected t₁) (h₂ : Source.Undirected t₂)
    (hd₁ : (r.parseText t₁).result = .ok d₁) (hd₂ : (r.parseText t₂).result = .ok d₂)
    (hlast : t₁.getLast? = some '\n') (hended : Source.Ended t₁)
    (hreopens : Source.ReopensNothing t₂)
    (hline : Statement.ofText line = [.includeFile path]) (hdollar : '$' ∉ path)
    (htilde : '~' ∉ path) (hread : r.host.read path = .ok (Source.ofText t₂)) :
    (r.parseText (t₁ ++ line)).result = .ok (d₁.update d₂) ∧
      (r.parseText (t₁ ++ t₂)).result = .ok (d₁.update d₂) := by
  obtain ⟨b₁, hb₁, hst₁, rfl⟩ := exists_body_of_parseText h₁ hd₁
  obtain ⟨b₂, hb₂, hst₂, rfl⟩ := exists_body_of_parseText h₂ hd₂
  refine ⟨?_, ?_⟩
  · exact result_parseText_include hb₁ hb₂ hst₁ hst₂ hlast hended hline hdollar htilde hread
  · rw [result_parseText_append hb₁ hb₂ hst₁ hst₂ hlast hended,
      Body.apply_eq_update hb₂ hst₂ hreopens]

/-- A file that turns a scalar into a section and a section into a scalar, goes
on with a labelled section and keeps the case of a key. -/
theorem parseText_include_over :
    let t₁ := "a = 1\n<b>\nx = 1\n</b>\n<c d>\nk 2\n</c>\n".toList
    let t₂ := "<a>\nY = 2\n</a>\nb = 3\n<c d>\nl 4\n</d>\ne 5\n</c>\n<cmdline>\nN = 6\n</cmdline>".toList
    let r : Reader := { host := ⟨fun path => if path = "f".toList then .ok (.ofText t₂) else
      .error .notFound, fun _ => none⟩ }
    ∃ d, (r.parseText (t₁ ++ (includeLine "f".toList ++ ['\n']))).result = .ok d ∧
      (r.parseText (t₁ ++ t₂)).result = .ok d ∧
      d = .ofList [
        ("a".toList, .nested (.ofList [("y".toList, .scalar "2".toList)])),
        ("b".toList, .scalar "3".toList),
        ("c".toList, .nested (.ofList [
          ("d".toList, .nested (.ofList [("k".toList, .scalar "2".toList),
            ("l".toList, .scalar "4".toList)])),
          ("e".toList, .scalar "5".toList)])),
        ("cmdline".toList, .nested (.ofList [("N".toList, .scalar "6".toList)]))] := by
  intro t₁ t₂ r
  let b₁ : Body :=
    .plain (.assignment "a".toList "1".toList)
      (.single "b".toList "b".toList (.plain (.assignment "x".toList "1".toList) .nil)
        (.pair "c".toList "d".toList "c".toList
          (.plain (.assignment "k".toList "2".toList) .nil) .nil))
  let b₂ : Body :=
    .single "a".toList "a".toList (.plain (.assignment "Y".toList "2".toList) .nil)
      (.plain (.assignment "b".toList "3".toList)
        (.labelled "c".toList "d".toList "d".toList "c".toList
          (.plain (.assignment "l".toList "4".toList) .nil)
          (.plain (.assignment "e".toList "5".toList) .nil)
          (.single "cmdline".toList "cmdline".toList
            (.plain (.assignment "N".toList "6".toList) .nil) .nil)))
  have hd₁ : (r.parseText t₁).result = .ok (b₁.apply false .empty) :=
    result_readSource (by decide) (by decide) maxIncludeDepth _
  have hd₂ : (r.parseText t₂).result = .ok (b₂.apply false .empty) :=
    result_readSource (by decide) (by decide) maxIncludeDepth _
  have hline : Statement.ofText (includeLine "f".toList ++ ['\n']) = [.includeFile "f".toList] :=
    Statement.ofText_includeLine (by decide) (List.forall_mem_singleton.2 (by decide))
  obtain ⟨hincluded, hpasted⟩ := parseText_include r (by decide) (by decide) hd₁ hd₂ (by decide)
    (by decide) (by decide) hline (by decide) (by decide) rfl
  exact ⟨_, hincluded, hpasted, by decide⟩

end Reader

end Wcl
