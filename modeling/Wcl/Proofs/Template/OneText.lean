import Wcl.Proofs.Document.Names
import Wcl.Proofs.Template.Confluence
import Wcl.Proofs.Template.Limit
import Wcl.Proofs.Template.LoopBudget
import Wcl.Proofs.Text.Integer

/-!
# Templates that come to one text

If exchanges lead from one template to another, the two come to the same text
where both resolve (`Exchanged.unique_of_resolveSingle`).  And where the second
one resolves to a text without dollar signs, it is only the limit that can be in
the way of the first one (`Exchanged.okOr_resolveSingle`): a token for which
nothing is put would stay in the text to the end, its dollar sign with it.
-/

namespace Wcl

namespace Context

variable {c : Context} {inner : (name value : Text) → Traced Text}
  {template template' s t a : Text} {forms : List Form} {form : Form} {token : Token}
  {item item' : Combination}

/-! ### One text -/

theorem exists_of_map {α β ε : Type} {x : Except ε α} {f : α → β} {b : β}
    (h : x.map f = .ok b) : ∃ a, x = .ok a ∧ f a = b := by
  cases x with
  | error e => cases h
  | ok a => exact ⟨a, rfl, Except.ok.inj h⟩

/-- What a template resolves to is what is left of it comes to. -/
theorem resolveSingle_eq_ok_iff : (c.resolveSingle template).result = .ok s ↔
    ∃ called, (c.substituteAll (c.valueIn (c.depthBound - 1) [] template) template).result
      = .ok called ∧ c.ComesTo called s := by
  constructor
  · intro h
    obtain ⟨r, hr, honly⟩ := Traced.bind_eq_ok.1 h
    rw [resolve_eq] at hr
    obtain ⟨called, hcalled, ⟨rfl, hleft⟩ | ⟨items, rfl, hloops, hne, hitems⟩⟩ :=
      resolveWith_eq_ok_iff.1 hr
    · cases honly
      refine ⟨called, hcalled, [], ?_, .inl ⟨rfl, rfl⟩⟩
      split
      · next hloops =>
        rw [hleft hloops]
        rfl
      · rfl
    · refine ⟨called, hcalled, items.map Combination.text, ?_, .inr ?_⟩
      · rw [if_pos hloops, hitems]
        rfl
      · match items, honly with
        | [item], honly =>
          cases honly
          rfl
  · rintro ⟨called, hcalled, texts, htexts, hs⟩
    refine Traced.bind_eq_ok.2 ?_
    rw [resolve_eq]
    split at htexts
    · next hloops =>
      obtain ⟨items, hitems, rfl⟩ := exists_of_map htexts
      obtain ⟨hnil, rfl⟩ | hone := hs
      · obtain rfl := List.map_eq_nil_iff.1 hnil
        exact ⟨.single called, resolveWith_eq_ok_iff.2 ⟨called, hcalled, .inl ⟨rfl, fun _ => hitems⟩⟩,
          rfl⟩
      · obtain ⟨item, rfl, rfl⟩ := List.map_eq_singleton_iff.1 hone
        exact ⟨.expanded [item], resolveWith_eq_ok_iff.2
          ⟨called, hcalled, .inr ⟨_, rfl, hloops, List.cons_ne_nil _ _, hitems⟩⟩, rfl⟩
    · next hloops =>
      cases htexts
      obtain ⟨_, rfl⟩ | hs := hs
      · exact ⟨.single called, resolveWith_eq_ok_iff.2
          ⟨called, hcalled, .inl ⟨rfl, fun h => absurd h hloops⟩⟩, rfl⟩
      · cases hs

section Stages

variable {s' : Text} {before settled beforeCalls called before' settled' beforeCalls' called' : Combination}

/-- If exchanges lead from one template to the other, and nothing is left to exchange
when variables have settled, the two come to one text. -/
theorem Exchanged.unique_of_settled
    (h : c.Exchanged inner [.header, .optional, .required] template template')
    (hturns : c.Turns inner template [.header, .optional, .required] ⟨template, []⟩ before settled)
    (hcalls : c.Turns inner template [.function] settled beforeCalls called)
    (hcomes : c.ComesTo called s)
    (hturns' : c.Turns inner template' [.header, .optional, .required] ⟨template', []⟩ before'
      settled')
    (hcalls' : c.Turns inner template' [.function] settled' beforeCalls' called')
    (hcomes' : c.ComesTo called' s')
    (hstop : ∀ d, ¬ c.Exchanges inner [.header, .optional, .required] settled.text d)
    (hstop' : ∀ d, ¬ c.Exchanges inner [.header, .optional, .required] settled'.text d) :
    s = s' := by
  have hsettled : settled.text = settled'.text :=
    Exchanges.unique hturns.exchanged (h.trans hturns'.exchanged) hstop hstop'
  have hcalled : called.text = called'.text :=
    Exchanges.unique hcalls.exchanged (hsettled ▸ hcalls'.exchanged) hcalls.called hcalls'.called
  exact hcomes.unique hcomes' hcalled

end Stages

/-- Templates that exchanges lead from one to the other come to one text. -/
theorem Exchanged.unique_of_resolveSingle (hreader : ∀ r ∈ c.registry, r.headerReader = none)
    {template' s' : Text}
    (h : ∀ inner, c.Exchanged inner [.header, .optional, .required] template template')
    (hs : (c.resolveSingle template).result = .ok s)
    (hs' : (c.resolveSingle template').result = .ok s') : s = s' := by
  obtain ⟨inner, hinner⟩ := c.exists_inner
  obtain ⟨_, settled, _, called, hturns, hcalls, hcomes⟩ := exists_stages (hinner template) hs
  obtain ⟨_, settled', _, called', hturns', hcalls', hcomes'⟩ :=
    exists_stages (hinner template') hs'
  exact (h inner).unique_of_settled hturns hcalls hcomes hturns' hcalls' hcomes'
    (hturns.settled hreader) (hturns'.settled hreader)

/-! ### Tokens that stay -/

/-- A spelling stays where tokens of other spellings are exchanged. -/
theorem Exchanged.keeps (h : c.Exchanged inner forms t a) (hs : IsSpelling s)
    (hother : ∀ form ∈ forms, ∀ token v, IsToken (.form form) token →
      c.Puts inner form token v → s ≠ token.spelling)
    (hin : s <:+: t) : s <:+: a := by
  induction h with
  | refl => exact hin
  | tail _ hstep ih => exact hstep.keeps hs hother ih

/-- Calling functions leaves the tokens of the other forms. -/
theorem Turns.keeps_called {settled before called : Combination}
    (h : c.Turns inner template [.function] settled before called)
    (htoken : IsToken (.form form) token) (hform : form ≠ .function)
    (hin : token.spelling <:+: settled.text) : token.spelling <:+: called.text := by
  refine Exchanged.keeps h.exchanged htoken.isSpelling ?_ hin
  intro form' hform' token' v htoken' _ he
  obtain rfl := Use.form.inj (htoken.unique htoken' he).1
  exact absurd (List.mem_singleton.1 hform') hform

/-- A token of some forms for which nothing is put stands in a text. -/
def Stuck (c : Context) (inner : (name value : Text) → Traced Text) (forms : List Form)
    (t : Text) : Prop :=
  ∃ form ∈ forms, ∃ token, IsToken (.form form) token ∧ (∀ v, ¬ c.Puts inner form token v) ∧
    token.spelling <:+: t

theorem Stuck.exchanged (h : c.Stuck inner forms t) (hex : c.Exchanged inner forms t a) :
    c.Stuck inner forms a := by
  obtain ⟨form, hform, token, htoken, hnothing, hin⟩ := h
  refine ⟨form, hform, token, htoken, hnothing, ?_⟩
  refine Exchanged.keeps hex htoken.isSpelling (fun form' _ token' v htoken' hputs he => ?_) hin
  obtain ⟨huse, rfl⟩ := htoken.unique htoken' he
  obtain rfl := Use.form.inj huse
  exact hnothing v hputs

/-- On the way to a text with nothing to exchange and no token in the way something
is put for every token. -/
theorem replaces_exchanged (hstop : ∀ d, ¬ c.Exchanges inner forms a d)
    (hclear : ¬ c.Stuck inner forms a) (hform : form ∈ forms) :
    c.Replaces inner (fun t => c.Exchanged inner forms t a) form := by
  intro t token hf ht
  obtain ⟨htoken, hin⟩ := Form.isToken_of_first? hf
  by_cases hputs : ∃ v, c.Puts inner form token v
  · obtain ⟨v, hputs⟩ := hputs
    have hnext : c.Exchanged inner forms t (Text.replaceAll token.spelling v t) :=
      exchanged_replaceAll hform htoken hputs [] t
    exact ⟨v, hputs, Exchanges.exchanged_of_stop hnext ht hstop⟩
  · have hstuck : c.Stuck inner forms t := ⟨form, hform, token, htoken, not_exists.1 hputs, hin⟩
    exact absurd (hstuck.exchanged ht) hclear

/-- So a stage comes to that text, or to its limit. -/
theorem okOr_of_exchanged {limit : Nat} (hstop : ∀ d, ¬ c.Exchanges inner forms a d)
    (hclear : ¬ c.Stuck inner forms a)
    (hends : ∀ before stop, c.Turns inner template forms item before stop →
      ∀ d, ¬ c.Exchanges inner forms stop.text d)
    (h : c.Exchanged inner forms item.text a) :
    Traced.OkOr (.endless template) (fun item' => item'.text = a)
      (c.untilStable inner template forms limit item) := by
  have hreplaces : ∀ form ∈ forms, c.Replaces inner (fun t => c.Exchanged inner forms t a) form :=
    fun form hform => replaces_exchanged hstop hclear hform
  rcases Replaces.okOr_untilStable hreplaces h with ⟨item', hitem', hrest⟩ | he
  · obtain ⟨before, hturns⟩ := turns_of_untilStable hitem'
    refine .inl ⟨item', hitem', ?_⟩
    rcases hrest.cases_head with he | ⟨d, hd, _⟩
    · exact he
    · exact absurd hd (hends before item' hturns d)
  · exact .inr he

/-! ### Loops leave other tokens -/

section Loops

variable (hnames : ∀ n ∈ c.document.names c.scope, '$' ∉ n)

include hnames

/-- A loop token that is given a value has no dollar sign in it. -/
theorem isToken_of_lists {value shown : Text} (hf : Token.first? loopKind t = some token)
    (hlists : c.Lists token value) (hshown : token.shown? value = some shown) :
    IsToken .loop token := by
  obtain ⟨t', _, hat⟩ := Token.exists_suffix_of_first? hf
  refine @isToken_of_at? .loop _ _ hat fun hm => ?_
  obtain ⟨text, hfind, _⟩ := hlists
  have hlowered : Text.Lowered '$' := ⟨by decide +kernel, by decide⟩
  have hname : '$' ∉ Token.nameIn token.body := Document.notMem_of_find? hlowered hnames hfind
  have hcolon : '$' ≠ ':' := by decide
  rcases Text.mem_cutAt hcolon hm with hm | ⟨width, hwidth, hm⟩
  · exact hname hm
  · rw [Token.shown?, Token.widthIn?, hwidth] at hshown
    exact (Text.notMem_of_zeroPad?_eq_some hshown).2 hm

theorem Fills.keeps (h : c.Fills item item') (htoken : IsToken (.form form) token)
    (hin : token.spelling <:+: item.text) : token.spelling <:+: item'.text := by
  induction h with
  | refl => exact hin
  | step hf hlists hshown _ ih =>
    have hloop := isToken_of_lists hnames hf hlists hshown
    refine ih (Text.infix_replaceAll_of_ne hloop.isSpelling htoken.isSpelling (fun he => ?_) _ hin)
    cases (hloop.unique htoken he).1

/-- What is left of a template keeps its tokens in the text that it comes to. -/
theorem ComesTo.keeps (h : c.ComesTo item s) (htoken : IsToken (.form form) token)
    (hin : token.spelling <:+: item.text) : token.spelling <:+: s := by
  obtain ⟨texts, htexts, ⟨_, rfl⟩ | rfl⟩ := h
  · exact hin
  · split at htexts
    · obtain ⟨items, hitems, hone⟩ := exists_of_map htexts
      obtain ⟨item', rfl, rfl⟩ := List.map_eq_singleton_iff.1 hone
      obtain ⟨_, start, hstart, hfills⟩ := fills_of_expandStack hitems item' (by simp)
      obtain rfl := List.mem_singleton.1 hstart
      exact hfills.keeps hnames htoken hin
    · cases htexts

/-- If what a template comes to has no header, none was left when variables had
settled. -/
theorem lacks_settled {settled before called : Combination}
    (hcalls : c.Turns inner template [.function] settled before called)
    (hcomes : c.ComesTo called s) (hs : Lacks [.header] s) : Lacks [.header] settled.text := by
  refine List.forall_mem_singleton.2 (Option.eq_none_iff_forall_ne_some.2 fun token hf => ?_)
  obtain ⟨htoken, hin⟩ := Form.isToken_of_first? hf
  have hlast := hcomes.keeps hnames htoken (hcalls.keeps_called htoken (by decide) hin)
  exact htoken.first?_ne_none hlast (hs _ (List.mem_singleton_self _))

/-- Also with a header reader templates that exchanges lead from one to the other come
to one text, if there is no header in what they come to. -/
theorem Exchanged.unique_of_lacks {template' s' : Text}
    (h : ∀ inner, c.Exchanged inner [.header, .optional, .required] template template')
    (hs : (c.resolveSingle template).result = .ok s) (hheader : Lacks [.header] s)
    (hs' : (c.resolveSingle template').result = .ok s') (hheader' : Lacks [.header] s') :
    s = s' := by
  obtain ⟨inner, hinner⟩ := c.exists_inner
  obtain ⟨_, settled, _, called, hturns, hcalls, hcomes⟩ := exists_stages (hinner template) hs
  obtain ⟨_, settled', _, called', hturns', hcalls', hcomes'⟩ :=
    exists_stages (hinner template') hs'
  exact (h inner).unique_of_settled hturns hcalls hcomes hturns' hcalls' hcomes'
    (hturns.settled_of_lacks (lacks_settled hnames hcalls hcomes hheader))
    (hturns'.settled_of_lacks (lacks_settled hnames hcalls' hcomes' hheader'))

/-- If exchanges lead to a template that comes to a text without dollar signs, only
the limit can be in the way of the same text. -/
theorem Exchanged.okOr_resolveSingle (hreader : ∀ r ∈ c.registry, r.headerReader = none)
    (h : ∀ inner, c.Exchanged inner [.header, .optional, .required] template template')
    (hs : (c.resolveSingle template').result = .ok s) (hdollar : '$' ∉ s) :
    Traced.OkOr (.endless template) (· = s) (c.resolveSingle template) := by
  obtain ⟨called', hall', hcomes⟩ := resolveSingle_eq_ok_iff.1 hs
  rw [valueIn_nil_congr template' template] at hall'
  obtain ⟨settled', hsettled, hcalled⟩ := Traced.bind_eq_ok.1 hall'
  obtain ⟨_, hturns⟩ := turns_of_untilStable hsettled
  obtain ⟨_, hcalls⟩ := turns_of_untilStable hcalled
  have hclear : ∀ {form : Form} {token : Token}, IsToken (.form form) token →
      ¬ token.spelling <:+: called'.text := by
    intro form token htoken hin
    obtain ⟨w, hw, _⟩ := htoken.isSpelling.exists_cons
    have hmem : '$' ∈ token.spelling := hw ▸ List.mem_cons_self ..
    exact hdollar ((hcomes.keeps hnames htoken hin).subset hmem)
  have hsettles : ¬ c.Stuck (c.valueIn (c.depthBound - 1) [] template)
      [.header, .optional, .required] settled'.text := by
    rintro ⟨form, hform, token, htoken, _, hin⟩
    have hother : form ≠ .function := fun he => absurd (he ▸ hform) (by decide)
    exact hclear htoken (hcalls.keeps_called htoken hother hin)
  have hcallable : ¬ c.Stuck (c.valueIn (c.depthBound - 1) [] template) [.function]
      called'.text := fun ⟨_, _, _, htoken, _, hin⟩ => hclear htoken hin
  have hall : Traced.OkOr (.endless template) (fun item => item.text = called'.text)
      (c.substituteAll (c.valueIn (c.depthBound - 1) [] template) template) := by
    refine (okOr_of_exchanged (hturns.settled hreader) hsettles
      (fun _ _ hturns => hturns.settled hreader) ((h _).trans hturns.exchanged)).bind ?_
    intro settled htext
    refine okOr_of_exchanged hcalls.called hcallable (fun _ _ hcalls => hcalls.called) ?_
    rw [htext]
    exact hcalls.exchanged
  rcases hall with ⟨called, hcalled, htext⟩ | he
  · exact .inl ⟨s, resolveSingle_eq_ok_iff.2 ⟨called, hcalled, hcomes.congr htext.symm⟩, rfl⟩
  · refine .inr (Traced.bind_eq_error ?_)
    rw [resolve_eq, resolveWith, Traced.result_bind]
    exact Traced.bind_eq_error he

end Loops

end Context

end Wcl
