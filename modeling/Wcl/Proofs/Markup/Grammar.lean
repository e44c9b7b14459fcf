import Wcl.Proofs.Markup.Body

/-!
# The grammar of sections

A text without directives is accepted if and only if its statements are the
lines of a well-nested body.  The document is what the body makes of the empty
one, so it does not depend on the derivation that was found; any other text is
refused for its sections.
-/

namespace Wcl.Reader

/-- Reading accepts exactly the texts that a well-nested body derives, and
builds what the body denotes; otherwise it fails on the structure of a line. -/
theorem parseText_iff_wellNested (r : Reader) {t : Text} (h : Source.Undirected t) :
    ((∃ d, (r.parseText t).result = .ok d) ↔
      ∃ b : Body, b.WellNested none ∧ b.statements = Statement.ofText t) ∧
    (∀ b : Body, b.WellNested none → b.statements = Statement.ofText t →
      (r.parseText t).result = .ok (b.apply false .empty)) ∧
    ((¬ ∃ b : Body, b.WellNested none ∧ b.statements = Statement.ofText t) →
      ∃ number fault, (r.parseText t).result =
        .error (.markup "stdin".toList number fault)) := by
  have hplain := Statement.isDirective_ofText h
  obtain ⟨number, hresult⟩ := r.result_parseText hplain
  have hread : ∀ b : Body, b.WellNested none → b.statements = Statement.ofText t →
      (r.parseText t).result = .ok (b.apply false .empty) := by
    intro b hb hst
    rw [hresult, ← hst, run_body hb]
    rfl
  -- What the run makes decides the three cases; the error only gets a place.
  cases hrun : Sections.run (Statement.ofText t) {} >>= Sections.finished with
  | error fault =>
    have hfails : (r.parseText t).result = .error (.markup "stdin".toList number fault) := by
      rw [hresult, hrun]
      rfl
    refine ⟨⟨fun ⟨d, hd⟩ => ?_, fun ⟨b, hb, hst⟩ => ⟨_, hread b hb hst⟩⟩, hread,
      fun _ => ⟨number, fault, hfails⟩⟩
    rw [hfails] at hd
    cases hd
  | ok d =>
    have hderived := exists_body_of_finished hplain hrun
    exact ⟨⟨fun _ => hderived, fun ⟨b, hb, hst⟩ => ⟨_, hread b hb hst⟩⟩, hread,
      fun hnone => absurd hderived hnone⟩

/-- A label that is closed by itself, with lines on both sides of its closing
line, and a section that keeps the case of its keys. -/
theorem parseText_labelled :
    let t := "<A b>\nX = 1\n</b>\ny 2\n</a>\n<cmdline>\nKey = v\n</cmdline>\n".toList
    Source.Undirected t ∧
      (({} : Reader).parseText t).result = .ok (.ofList [
        ("a".toList, .nested (.ofList [
          ("b".toList, .nested (.ofList [("x".toList, .scalar "1".toList)])),
          ("y".toList, .scalar "2".toList)])),
        ("cmdline".toList, .nested (.ofList [("Key".toList, .scalar "v".toList)]))]) := by
  intro t
  have ht : Source.Undirected t := by decide
  let b : Body :=
    .labelled "A".toList "b".toList "b".toList "a".toList
      (.plain (.assignment "X".toList "1".toList) .nil)
      (.plain (.assignment "y".toList "2".toList) .nil)
      (.single "cmdline".toList "cmdline".toList
        (.plain (.assignment "Key".toList "v".toList) .nil) .nil)
  have hb : b.WellNested none := by decide
  have hst : b.statements = Statement.ofText t := by decide
  refine ⟨ht, ((parseText_iff_wellNested {} ht).2.1 b hb hst).trans ?_⟩
  exact congrArg Except.ok (by decide)

end Wcl.Reader
