import Wcl.Proofs.Template.Combinations
import Wcl.Proofs.Template.TokenText

/-!
# What expansion puts in a template

A step of expansion gives the first loop token of a text a value that its
variable lists (`Context.Fills`), and the texts that come off the stack are made
by such steps (`Context.fills_of_expandStack`).

In a template of loop tokens over values without dollar signs the steps choose
one value for each spelling of a token, and what is left is the template with
the values in their places (`Context.Fills.exists_choice`).  So the text of a
combination is the template filled with its bindings if no variable stands in
tokens of two spellings (`Context.resolve_filled`).  Tokens of one variable that
are spelled differently are given values apart, and only the last of those is
bound.
-/

namespace Wcl

/-! ### Filling a text -/

/-- Puts a text for each loop token; the first `skip` characters belong to a
token that has been dealt with. -/
def fillFrom (f : Token → Text) : Nat → Text → Text
  | _, [] => []
  | skip + 1, _ :: r => fillFrom f skip r
  | 0, ch :: r =>
    match Token.at? loopKind (ch :: r) with
    | some token => f token ++ fillFrom f (token.spelling.length - 1) r
    | none => ch :: fillFrom f 0 r

/-- Puts a text for each loop token. -/
def fill (f : Token → Text) (t : Text) : Text := fillFrom f 0 t

/-- The loop tokens of a text. -/
abbrev loopTokens (t : Text) : List Token := Token.all loopKind t

section Filling

variable {f g : Token → Text} {t : Text} {token : Token}

theorem fillFrom_eq_drop (f : Token → Text) (skip : Nat) (t : Text) :
    fillFrom f skip t = fill f (t.drop skip) := by
  induction t generalizing skip with
  | nil => cases skip <;> simp [fillFrom, fill]
  | cons ch r ih =>
    cases skip with
    | zero => rfl
    | succ k => rw [fillFrom, ih k, List.drop_succ_cons]

theorem allFrom_eq_drop (kind : TokenKind) (skip : Nat) (t : Text) :
    Token.allFrom kind skip t = Token.all kind (t.drop skip) := by
  induction t generalizing skip with
  | nil => cases skip <;> simp [Token.allFrom, Token.all]
  | cons ch r ih =>
    cases skip with
    | zero => rfl
    | succ k => rw [Token.allFrom, ih k, List.drop_succ_cons]

theorem fill_cons_of_ne {ch : Char} (hch : ch ≠ '$') (f : Token → Text) (t : Text) :
    fill f (ch :: t) = ch :: fill f t := by
  rw [fill, fillFrom, Token.at?_cons_of_ne rfl hch]
  rfl

theorem loopTokens_cons_of_ne {ch : Char} (hch : ch ≠ '$') (t : Text) :
    loopTokens (ch :: t) = loopTokens t := by
  rw [loopTokens, Token.all, Token.allFrom, Token.at?_cons_of_ne rfl hch]
  rfl

theorem IsToken.fill_append (h : IsToken .loop token) (f : Token → Text) (t : Text) :
    fill f (token.spelling ++ t) = f token ++ fill f t := by
  have hat : Token.at? loopKind (token.spelling ++ t) = some token := h.at?_eq t
  obtain ⟨r, hr, _⟩ := h.isSpelling.exists_cons
  rw [hr, List.cons_append] at hat ⊢
  rw [fill, fillFrom, hat]
  dsimp only
  rw [fillFrom_eq_drop, hr]
  simp

theorem IsToken.loopTokens_append (h : IsToken .loop token) (t : Text) :
    loopTokens (token.spelling ++ t) = token :: loopTokens t := by
  have hat : Token.at? loopKind (token.spelling ++ t) = some token := h.at?_eq t
  obtain ⟨r, hr, _⟩ := h.isSpelling.exists_cons
  rw [hr, List.cons_append] at hat ⊢
  rw [loopTokens, Token.all, Token.allFrom, hat]
  dsimp only
  rw [allFrom_eq_drop, hr]
  simp

/-- A text of loop tokens is built of plain characters and loop tokens. -/
@[elab_as_elim]
theorem TokensOnly.loop_induction {motive : (t : Text) → TokensOnly [.loop] t → Prop}
    (nil : motive [] .nil)
    (char : ∀ (ch : Char) (t : Text) (hch : ch ≠ '$') (h : TokensOnly [.loop] t), motive t h →
      motive (ch :: t) (.char hch h))
    (token : ∀ (token : Token) (t : Text) (htoken : IsToken .loop token)
      (h : TokensOnly [.loop] t), motive t h →
      motive (token.spelling ++ t)
        (.spelling htoken.isSpelling ⟨.loop, List.mem_singleton_self _, token.body, htoken⟩ h))
    (t : Text) (h : TokensOnly [.loop] t) : motive t h := by
  induction t, h using SpelledBy.induction with
  | nil => exact nil
  | char ch t hch h ih => exact char ch t hch h ih
  | spelling s t _ hP h ih =>
    obtain ⟨use, huse, body, htoken⟩ := hP
    obtain rfl := List.mem_singleton.1 huse
    exact token ⟨s, body⟩ t htoken h ih

theorem TokensOnly.lacks_forms (ht : TokensOnly [.loop] t) (form : Form) :
    Token.first? form.kind t = none := by
  have huse : Use.form form ∉ [Use.loop] := by simp
  exact ht.first?_eq_none huse

theorem fill_congr (ht : TokensOnly [.loop] t) (h : ∀ token ∈ loopTokens t, f token = g token) :
    fill f t = fill g t := by
  induction t, ht using TokensOnly.loop_induction with
  | nil => rfl
  | char ch t hch _ ih =>
    rw [loopTokens_cons_of_ne hch] at h
    rw [fill_cons_of_ne hch, fill_cons_of_ne hch, ih h]
  | token token t htoken _ ih =>
    rw [htoken.loopTokens_append, List.forall_mem_cons] at h
    rw [htoken.fill_append, htoken.fill_append, h.1, ih h.2]

theorem fill_spelling (ht : TokensOnly [.loop] t) : fill Token.spelling t = t := by
  induction t, ht using TokensOnly.loop_induction with
  | nil => rfl
  | char ch t hch _ ih => rw [fill_cons_of_ne hch, ih]
  | token token t htoken _ ih => rw [htoken.fill_append, ih]

theorem isToken_of_mem_loopTokens (ht : TokensOnly [.loop] t) (h : token ∈ loopTokens t) :
    IsToken .loop token := by
  induction t, ht using TokensOnly.loop_induction with
  | nil => exact absurd h List.not_mem_nil
  | char ch t hch _ ih =>
    rw [loopTokens_cons_of_ne hch] at h
    exact ih h
  | token token' t htoken _ ih =>
    rw [htoken.loopTokens_append] at h
    rcases List.mem_cons.1 h with rfl | h
    · exact htoken
    · exact ih h

/-- Every token of the text keeps its spelling or is given a text without dollar
signs. -/
def PutsPlain (f : Token → Text) (t : Text) : Prop :=
  ∀ token ∈ loopTokens t, f token = token.spelling ∨ '$' ∉ f token

/-- The first token that is left is one of the text's. -/
theorem first?_fill (ht : TokensOnly [.loop] t) (hf : PutsPlain f t) :
    Token.first? loopKind (fill f t) =
      (loopTokens t).find? fun token => f token = token.spelling := by
  induction t, ht using TokensOnly.loop_induction with
  | nil => rfl
  | char ch t hch _ ih =>
    rw [PutsPlain, loopTokens_cons_of_ne hch] at hf
    rw [fill_cons_of_ne hch, Token.first?_cons_of_ne rfl hch, loopTokens_cons_of_ne hch, ih hf]
  | token token t htoken _ ih =>
    rw [PutsPlain, htoken.loopTokens_append, List.forall_mem_cons] at hf
    rw [htoken.fill_append, htoken.loopTokens_append]
    rcases hf.1 with he | hplain
    · rw [he, List.find?_cons_of_pos (by simpa using he)]
      exact htoken.first?_eq _
    · have hne : f token ≠ token.spelling := by
        intro he
        obtain ⟨r, hr, _⟩ := htoken.isSpelling.exists_cons
        rw [he, hr] at hplain
        exact hplain (List.mem_cons_self ..)
      rw [Token.first?_append_of_notMem rfl hplain, List.find?_cons_of_neg (by simpa using hne),
        ih hf.2]

/-- Replacing a token that is left is putting the text for it. -/
theorem replaceAll_fill (ht : TokensOnly [.loop] t) (hf : PutsPlain f t)
    (htoken : IsToken .loop token) (hleft : f token = token.spelling) (v : Text) :
    Text.replaceAll token.spelling v (fill f t) = fill (Function.update f token v) t := by
  induction t, ht using TokensOnly.loop_induction with
  | nil => rfl
  | char ch t hch _ ih =>
    rw [PutsPlain, loopTokens_cons_of_ne hch] at hf
    rw [fill_cons_of_ne hch, fill_cons_of_ne hch, ← ih hf]
    exact Text.replaceAll_cons_of_ne htoken.isSpelling hch _ _
  | token token' t htoken' _ ih =>
    rw [PutsPlain, htoken'.loopTokens_append, List.forall_mem_cons] at hf
    rw [htoken'.fill_append, htoken'.fill_append, ← ih hf.2]
    by_cases he : token' = token
    · subst he
      rw [hleft, Text.replaceAll_append htoken.isSpelling.ne_nil, Function.update_self]
    · rw [Function.update_of_ne he]
      rcases hf.1 with hspelling | hplain
      · have hne : token.spelling ≠ token'.spelling :=
          fun hs => he (htoken'.unique htoken hs.symm).2
        rw [hspelling, Text.replaceAll_of_ne htoken.isSpelling htoken'.isSpelling hne]
      · exact Text.replaceAll_append_of_notMem htoken.isSpelling hplain _ _

end Filling

/-! ### Steps -/

/-- What a loop token shows for a value: the value, padded if there is a width. -/
def Token.shown? (token : Token) (value : Text) : Option Text :=
  match widthIn? token.body with
  | none => some value
  | some width => Text.zeroPad? value width

theorem Token.notMem_shown? {token : Token} {value shown : Text} (hvalue : '$' ∉ value)
    (h : token.shown? value = some shown) : '$' ∉ shown := by
  unfold shown? at h
  split at h
  · cases h
    exact hvalue
  · exact Text.notMem_of_zeroPad? h

namespace Context

variable {c : Context} {template t : Text} {item item' : Combination} {token : Token}
  {value : Text}

/-- A value of a loop token's variable. -/
def Lists (c : Context) (token : Token) (value : Text) : Prop :=
  ∃ text, c.document.find? c.scope (Token.nameIn token.body) = some (.scalar text) ∧
    value ∈ Text.valueList ',' text

/-- The first loop token is given a value everywhere, again and again. -/
inductive Fills (c : Context) : Combination → Combination → Prop
  | refl {item : Combination} : Fills c item item
  | step {item item' : Combination} {token : Token} {value shown : Text} :
    Token.first? loopKind item.text = some token → c.Lists token value →
      token.shown? value = some shown →
      Fills c ⟨Text.replaceAll token.spelling shown item.text,
        item.bindings.insert (Token.nameIn token.body) value⟩ item' →
      Fills c item item'

theorem exists_of_assign (h : assign item token value = .ok item') :
    ∃ shown, token.shown? value = some shown ∧
      item' = ⟨Text.replaceAll token.spelling shown item.text,
        item.bindings.insert (Token.nameIn token.body) value⟩ := by
  unfold assign at h
  dsimp only at h
  split at h
  · next hwidth =>
    cases h
    exact ⟨value, by rw [Token.shown?, hwidth], rfl⟩
  · next width hwidth =>
    split at h
    · next shown hshown =>
      cases h
      refine ⟨shown, ?_, rfl⟩
      rw [Token.shown?, hwidth]
      exact hshown
    · cases h

theorem exists_of_loopValues {limit : Nat} {values : List Text}
    (h : c.loopValues template limit token = .ok values) :
    ∃ text, c.document.find? c.scope (Token.nameIn token.body) = some (.scalar text) ∧
      Text.splitWithin limit ',' text = some values := by
  unfold loopValues at h
  dsimp only at h
  split at h
  · cases h
  · cases h
  · next text hfind =>
    split at h
    · cases h
    · next hsplit =>
      cases h
      exact ⟨text, hfind, hsplit⟩

theorem lists_of_loopValues {limit : Nat} {values : List Text}
    (h : c.loopValues template limit token = .ok values) : ∀ value ∈ values, c.Lists token value := by
  obtain ⟨text, hfind, hsplit⟩ := exists_of_loopValues h
  intro value hvalue
  rw [Text.valuesWithin_eq_some hsplit] at hvalue
  exact ⟨text, hfind, hvalue⟩

theorem exists_of_bind {α β ε : Type} {x : Except ε α} {f : α → Except ε β} {b : β}
    (h : x >>= f = .ok b) : ∃ a, x = .ok a ∧ f a = .ok b := by
  cases x with
  | error e => cases h
  | ok a => exact ⟨a, rfl, h⟩

theorem exists_of_mapM {α β ε : Type} {f : α → Except ε β} {as : List α} {bs : List β}
    (h : as.mapM f = .ok bs) : ∀ b ∈ bs, ∃ a ∈ as, f a = .ok b := by
  induction as generalizing bs with
  | nil =>
    cases h
    exact fun b hb => absurd hb List.not_mem_nil
  | cons a as ih =>
    rw [List.mapM_cons] at h
    obtain ⟨b, hb, h⟩ := exists_of_bind h
    obtain ⟨others, hothers, h⟩ := exists_of_bind h
    cases h
    refine List.forall_mem_cons.2 ⟨⟨a, List.mem_cons_self .., hb⟩, fun b' hb' => ?_⟩
    obtain ⟨a', ha', hfa⟩ := ih hothers b' hb'
    exact ⟨a', List.mem_cons_of_mem _ ha', hfa⟩

/-- A text on top of the stack that is finished is left as it is. -/
theorem expandStack_finished {budget : Nat} {stack items : List Combination}
    (hf : Token.first? loopKind item.text = none)
    (h : c.expandStack template (budget + 1) (item :: stack) = .ok items) :
    ∃ others, c.expandStack template budget stack = .ok others ∧ items = item :: others := by
  rw [expandStack, hf] at h
  obtain ⟨others, hothers, h⟩ := exists_of_bind h
  cases h
  exact ⟨others, hothers, rfl⟩

/-- From a text on top of the stack that is not finished each value of its first
token makes another one. -/
theorem expandStack_unfinished {budget : Nat} {stack items : List Combination}
    (hf : Token.first? loopKind item.text = some token)
    (h : c.expandStack template (budget + 1) (item :: stack) = .ok items) :
    ∃ (made others : List Combination) (budget' : Nat), budget' ≤ budget ∧
      (∀ m ∈ made, ∃ value, c.Lists token value ∧ assign item token value = .ok m) ∧
      c.expandStack template budget' ((made.filter (hasLoops ·.text)).reverse ++ stack)
        = .ok others ∧
      items = made.filter (!hasLoops ·.text) ++ others := by
  rw [expandStack, hf] at h
  obtain ⟨values, hvalues, h⟩ := exists_of_bind h
  obtain ⟨made, hmade, h⟩ := exists_of_bind h
  obtain ⟨others, hothers, h⟩ := exists_of_bind h
  cases h
  refine ⟨made, others, budget - values.length, Nat.sub_le _ _, fun m hm => ?_, hothers, rfl⟩
  obtain ⟨value, hvalue, hassign⟩ := exists_of_mapM hmade m hm
  exact ⟨value, lists_of_loopValues hvalues value hvalue, hassign⟩

/-- What comes off the stack is made by steps from something on it. -/
theorem fills_of_expandStack {budget : Nat} {stack items : List Combination}
    (h : c.expandStack template budget stack = .ok items) :
    ∀ item ∈ items, hasLoops item.text = false ∧ ∃ start ∈ stack, Fills c start item := by
  induction budget using Nat.strong_induction_on generalizing stack items with
  | _ budget ih =>
  cases stack with
  | nil =>
    rw [expandStack] at h
    cases h
    exact fun item hitem => absurd hitem List.not_mem_nil
  | cons top stack =>
    cases budget with
    | zero =>
      rw [expandStack] at h
      cases h
    | succ budget =>
      cases hf : Token.first? loopKind top.text with
      | none =>
        obtain ⟨others, hothers, rfl⟩ := expandStack_finished hf h
        have hdone : hasLoops top.text = false := by
          rw [hasLoops, hf]
          rfl
        refine List.forall_mem_cons.2 ⟨⟨hdone, top, List.mem_cons_self .., .refl⟩, ?_⟩
        intro item hitem
        obtain ⟨hitem, start, hstart, hfills⟩ := ih budget (Nat.lt_succ_self _) hothers item hitem
        exact ⟨hitem, start, List.mem_cons_of_mem _ hstart, hfills⟩
      | some token =>
        obtain ⟨made, others, budget', hle, hmade, hothers, rfl⟩ := expandStack_unfinished hf h
        have hstep : ∀ m ∈ made, ∀ item, Fills c m item → Fills c top item := by
          intro m hm item hfills
          obtain ⟨value, hlists, hassign⟩ := hmade m hm
          obtain ⟨shown, hshown, rfl⟩ := exists_of_assign hassign
          exact .step hf hlists hshown hfills
        intro item hitem
        rcases List.mem_append.1 hitem with hitem | hitem
        · obtain ⟨hm, hdone⟩ := List.mem_filter.1 hitem
          exact ⟨by simpa using hdone, top, List.mem_cons_self .., hstep item hm item .refl⟩
        · obtain ⟨hdone, start, hstart, hfills⟩ :=
            ih budget' (Nat.lt_succ_of_le hle) hothers item hitem
          refine ⟨hdone, ?_⟩
          rcases List.mem_append.1 hstart with hstart | hstart
          · have hm := List.mem_of_mem_filter (List.mem_reverse.1 hstart)
            exact ⟨top, List.mem_cons_self .., hstep start hm item hfills⟩
          · exact ⟨start, List.mem_cons_of_mem _ hstart, hfills⟩

end Context

/-! ### One value for a spelling -/

/-- What is put for a token: what it shows for its value, if it has been given
one. -/
def Token.put (choice : Token → Option Text) (token : Token) : Text :=
  match choice token with
  | none => token.spelling
  | some value => (token.shown? value).getD []

theorem Token.put_update {choice : Token → Option Text} {token : Token} {value shown : Text}
    (hshown : token.shown? value = some shown) :
    put (Function.update choice token (some value)) =
      Function.update (put choice) token shown := by
  funext token'
  by_cases he : token' = token
  · subst he
    rw [Function.update_self, put, Function.update_self]
    dsimp only
    rw [hshown]
    rfl
  · rw [Function.update_of_ne he, put, put, Function.update_of_ne he]

/-- What a token shows for the value that is bound to its name. -/
def Token.bound (b : Bindings) (token : Token) : Text :=
  ((b.get? (nameIn token.body)).bind token.shown?).getD []

/-- No variable stands in tokens of two spellings. -/
def OneSpelling (t : Text) : Prop :=
  ∀ token ∈ loopTokens t, ∀ token' ∈ loopTokens t,
    Token.nameIn token.body = Token.nameIn token'.body → token = token'

instance (t : Text) : Decidable (OneSpelling t) :=
  inferInstanceAs (Decidable (∀ token ∈ loopTokens t, ∀ token' ∈ loopTokens t,
    Token.nameIn token.body = Token.nameIn token'.body → token = token'))

namespace Context

variable {c : Context} {t : Text} {item item' : Combination} {token : Token} {value shown : Text}
  {choice : Token → Option Text}

/-- The scalars that the loop tokens of a text look up hold no dollar sign. -/
def PlainLoops (c : Context) (t : Text) : Prop :=
  ∀ token ∈ loopTokens t, ∀ text,
    c.document.find? c.scope (Token.nameIn token.body) = some (.scalar text) → '$' ∉ text

instance (c : Context) (t : Text) : Decidable (c.PlainLoops t) :=
  decidable_of_iff
    (∀ token ∈ loopTokens t,
      (c.document.find? c.scope (Token.nameIn token.body)).all fun value =>
        value.text?.all fun text => !text.contains '$') <| by
    refine forall₂_congr fun token _ => ?_
    cases c.document.find? c.scope (Token.nameIn token.body) with
    | none => simp
    | some value => cases value <;> simp [Value.text?]

theorem PlainLoops.notMem_shown (h : c.PlainLoops t) (htoken : token ∈ loopTokens t)
    (hvalue : c.Lists token value) (hshown : token.shown? value = some shown) : '$' ∉ shown := by
  obtain ⟨text, hfind, hmem⟩ := hvalue
  exact Token.notMem_shown? (Text.notMem_valueList (h token htoken text hfind) ',' value hmem) hshown

/-- A template on the way to a combination: some of its tokens have been given a
value, and each of their names is bound to the value of one of its tokens. -/
structure Partly (c : Context) (t : Text) (choice : Token → Option Text) (item : Combination) :
    Prop where
  text : item.text = fill (Token.put choice) t
  lists : ∀ token ∈ loopTokens t, ∀ value, choice token = some value →
    c.Lists token value ∧ (token.shown? value).isSome
  bound : ∀ token ∈ loopTokens t, (choice token).isSome → ∃ token' ∈ loopTokens t,
    Token.nameIn token'.body = Token.nameIn token.body ∧ (choice token').isSome ∧
      item.bindings.get? (Token.nameIn token.body) = choice token'

namespace Partly

theorem start (ht : TokensOnly [.loop] t) (b : Bindings) :
    c.Partly t (fun _ => none) ⟨t, b⟩ where
  text := (fill_spelling ht).symm
  lists := nofun
  bound := nofun

theorem notMem_put (h : c.Partly t choice item) (hplain : c.PlainLoops t)
    (htoken : token ∈ loopTokens t) (hchoice : choice token = some value) :
    '$' ∉ Token.put choice token := by
  obtain ⟨hlists, hsome⟩ := h.lists token htoken value hchoice
  obtain ⟨shown, hshown⟩ := Option.isSome_iff_exists.1 hsome
  rw [Token.put, hchoice]
  dsimp only
  rw [hshown]
  exact hplain.notMem_shown htoken hlists hshown

theorem putsPlain (h : c.Partly t choice item) (hplain : c.PlainLoops t) :
    PutsPlain (Token.put choice) t := by
  intro token htoken
  cases hchoice : choice token with
  | none => exact .inl (by rw [Token.put, hchoice])
  | some value => exact .inr (h.notMem_put hplain htoken hchoice)

theorem step (h : c.Partly t choice item) (ht : TokensOnly [.loop] t) (hplain : c.PlainLoops t)
    (hf : Token.first? loopKind item.text = some token) (hvalue : c.Lists token value)
    (hshown : token.shown? value = some shown) :
    c.Partly t (Function.update choice token (some value))
      ⟨Text.replaceAll token.spelling shown item.text,
        item.bindings.insert (Token.nameIn token.body) value⟩ := by
  rw [h.text, first?_fill ht (h.putsPlain hplain)] at hf
  have htoken := List.mem_of_find?_eq_some hf
  have hput : Token.put choice token = token.spelling := by
    simpa using List.find?_some hf
  refine ⟨?_, ?_, ?_⟩
  · rw [h.text, replaceAll_fill ht (h.putsPlain hplain) (isToken_of_mem_loopTokens ht htoken) hput,
      Token.put_update hshown]
  · intro token' htoken' value' hvalue'
    by_cases he : token' = token
    · subst he
      rw [Function.update_self] at hvalue'
      cases hvalue'
      exact ⟨hvalue, by rw [hshown]; rfl⟩
    · rw [Function.update_of_ne he] at hvalue'
      exact h.lists token' htoken' value' hvalue'
  · intro token' htoken' hsome
    by_cases hname : Token.nameIn token.body = Token.nameIn token'.body
    · refine ⟨token, htoken, hname, ?_, ?_⟩
      · rw [Function.update_self]
        rfl
      · rw [Bindings.get?_insert, if_pos hname, Function.update_self]
    · have hne : ∀ token'' : Token, Token.nameIn token''.body = Token.nameIn token'.body →
          token'' ≠ token := by
        rintro _ he rfl
        exact hname he
      rw [Function.update_of_ne (hne token' rfl)] at hsome
      obtain ⟨token'', hmem, hsame, hsome', hget⟩ := h.bound token' htoken' hsome
      refine ⟨token'', hmem, hsame, ?_, ?_⟩
      · rwa [Function.update_of_ne (hne token'' hsame)]
      · rw [Bindings.get?_insert, if_neg hname, Function.update_of_ne (hne token'' hsame), hget]

/-- Where no loop is left every token has been given a value. -/
theorem isSome_of_hasLoops (h : c.Partly t choice item) (ht : TokensOnly [.loop] t)
    (hplain : c.PlainLoops t) (hdone : hasLoops item.text = false) :
    ∀ token ∈ loopTokens t, (choice token).isSome := by
  rw [hasLoops, h.text, first?_fill ht (h.putsPlain hplain)] at hdone
  have hnone := List.find?_eq_none.1 (Option.not_isSome_iff_eq_none.1 (by rw [hdone]; decide))
  intro token htoken
  cases hchoice : choice token with
  | none => exact absurd (by rw [Token.put, hchoice]; simp) (hnone token htoken)
  | some value => rfl

end Partly

/-- A finished text is the template with a value for each of its tokens. -/
theorem Fills.exists_choice (h : Fills c item item') (hitem : c.Partly t choice item)
    (ht : TokensOnly [.loop] t) (hplain : c.PlainLoops t) (hdone : hasLoops item'.text = false) :
    ∃ choice', c.Partly t choice' item' ∧ ∀ token ∈ loopTokens t, (choice' token).isSome := by
  induction h generalizing choice with
  | refl => exact ⟨choice, hitem, hitem.isSome_of_hasLoops ht hplain hdone⟩
  | step hf hvalue hshown _ ih => exact ih (hitem.step ht hplain hf hvalue hshown) hdone

/-! ### A whole template -/

/-- A template resolves to what is left behind the substitution, or to what
comes off the stack that begins with it. -/
theorem exists_of_resolveWith {inner : (name value : Text) → Traced Text} {template : Text}
    {r : Resolved} (h : (c.resolveWith inner template).result = .ok r) :
    ∃ item, (c.substituteAll inner template).result = .ok item ∧
      (r = .single item ∨ ∃ items, r = .expanded items ∧ c.expandLoops item = .ok items) := by
  obtain ⟨_, _, h⟩ := Traced.bind_eq_ok.1 h
  obtain ⟨item, hitem, h⟩ := Traced.bind_eq_ok.1 h
  refine ⟨item, hitem, ?_⟩
  split at h
  · obtain ⟨items, hitems, h⟩ := Traced.bind_eq_ok.1 h
    split at h
    · obtain ⟨_, _, h⟩ := Traced.bind_eq_ok.1 h
      cases h
      exact .inl rfl
    · obtain ⟨_, _, h⟩ := Traced.bind_eq_ok.1 h
      cases h
      exact .inr ⟨items, rfl, hitems⟩
  · cases h
    exact .inl rfl

/-- **Every combination is the template with values in it.**  Each token has one
of the values that its variable lists, the same wherever it is spelled alike,
and the value of one of its tokens is bound to each name.  So the template is
filled with what is bound if no variable stands in tokens of two spellings. -/
theorem resolve_filled (c : Context) {template : Text} {items : List Combination}
    (ht : TokensOnly [.loop] template) (hplain : c.PlainLoops template)
    (h : (c.resolve template).result = .ok (.expanded items)) :
    ∀ item ∈ items, ∃ choice : Token → Option Text,
      (∀ token ∈ loopTokens template, ∃ value, choice token = some value ∧
        c.Lists token value ∧ (token.shown? value).isSome) ∧
      item.text = fill (Token.put choice) template ∧
      (∀ token ∈ loopTokens template, ∃ token' ∈ loopTokens template,
        Token.nameIn token'.body = Token.nameIn token.body ∧
          item.bindings.get? (Token.nameIn token.body) = choice token') ∧
      (OneSpelling template → item.text = fill (Token.bound item.bindings) template) := by
  obtain ⟨inner, hinner⟩ := c.exists_resolve_eq template
  rw [hinner] at h
  obtain ⟨start, hstart, hr⟩ := exists_of_resolveWith h
  obtain rfl : Combination.mk template [] = start := by
    rw [substituteAll_of_none ht.lacks_forms] at hstart
    exact Except.ok.inj hstart
  obtain ⟨items', hr, hexpand⟩ := hr.resolve_left nofun
  cases hr
  intro item hitem
  obtain ⟨hdone, top, htop, hfills⟩ := fills_of_expandStack hexpand item hitem
  obtain rfl := List.mem_singleton.1 htop
  obtain ⟨choice, hpartly, hall⟩ :=
    hfills.exists_choice (.start ht []) ht hplain hdone
  have hbound : ∀ token ∈ loopTokens template, ∃ token' ∈ loopTokens template,
      Token.nameIn token'.body = Token.nameIn token.body ∧
        item.bindings.get? (Token.nameIn token.body) = choice token' := by
    intro token htoken
    obtain ⟨token', htoken', hname, _, hget⟩ := hpartly.bound token htoken (hall token htoken)
    exact ⟨token', htoken', hname, hget⟩
  refine ⟨choice, fun token htoken => ?_, hpartly.text, hbound, fun hone => ?_⟩
  · obtain ⟨value, hvalue⟩ := Option.isSome_iff_exists.1 (hall token htoken)
    exact ⟨value, hvalue, hpartly.lists token htoken value hvalue⟩
  · rw [hpartly.text]
    refine fill_congr ht fun token htoken => ?_
    obtain ⟨token', htoken', hname, hget⟩ := hbound token htoken
    obtain rfl := hone token' htoken' token htoken hname
    obtain ⟨value, hvalue⟩ := Option.isSome_iff_exists.1 (hall token' htoken')
    rw [Token.bound, hget, Token.put, hvalue]
    rfl

/-- A plain token that stands twice, and a padded one between its places. -/
theorem resolve_filled_padded :
    let c : Context :=
      ⟨.ofList [("a".toList, .scalar "x,y".toList), ("b".toList, .scalar "7".toList)],
        {}, false, none⟩
    let template := "$LOOP\x7ba\x7d/$LOOP\x7bb:2\x7d-$LOOP\x7ba\x7d".toList
    let item : Combination :=
      ⟨"y/07-y".toList, [("a".toList, "y".toList), ("b".toList, "7".toList)]⟩
    ∃ items, (c.resolve template).result = .ok (.expanded items) ∧ item ∈ items ∧
      OneSpelling template ∧ item.text = fill (Token.bound item.bindings) template := by
  intro c template item
  let a : Loop := { name := "a".toList }
  let b : Loop := ⟨"b".toList, some "2".toList⟩
  let ps : List Piece := [.loop a, .char '/', .loop b, .char '-', .loop a]
  have ha : c.Supplies a := ⟨⟨_, rfl⟩, by decide, by decide⟩
  have hb : c.Supplies b := ⟨⟨_, rfl⟩, by decide, by decide⟩
  have hsup : ∀ l ∈ loops ps, c.Supplies l := by
    intro l hl
    have hcases : l = a ∨ b = l ∨ a = l := by simpa [loops, Piece.loop?, ps] using hl
    rcases hcases with rfl | rfl | rfl <;> assumption
  have hps : ∀ p ∈ ps, p.Plain := by decide
  have hresult := result_resolve_spell hps hsup (by decide) (by decide) (by decide)
  have ht : TokensOnly [.loop] template := by decide
  have hplain : c.PlainLoops template := by decide
  have hone : OneSpelling template := by decide
  have hmem : item ∈ (choices c.valuesOf (distinctLoops ps)).map (combine ps []) := by decide
  refine ⟨_, hresult, hmem, hone, ?_⟩
  obtain ⟨_, _, _, _, hfill⟩ := c.resolve_filled ht hplain hresult item hmem
  exact hfill hone

/-- A variable in tokens of two spellings has two values in one combination. -/
theorem resolve_two_spellings :
    let c : Context := ⟨.ofList [("a".toList, .scalar "1,2".toList)], {}, false, none⟩
    let template := "$LOOP\x7ba\x7d-$LOOP\x7ba:2\x7d".toList
    let item : Combination := ⟨"2-01".toList, [("a".toList, "1".toList)]⟩
    TokensOnly [.loop] template ∧ c.PlainLoops template ∧
      ∃ items, (c.resolve template).result = .ok (.expanded items) ∧ items.length = 4 ∧
        item ∈ items ∧ item.text ≠ fill (Token.bound item.bindings) template := by
  intro c template item
  let ps : List Piece :=
    [.loop { name := "a".toList }, .char '-', .loop ⟨"a".toList, some "2".toList⟩]
  have hsup : ∀ l ∈ loops ps, c.Supplies l := by
    intro l hl
    have hcases : l = { name := "a".toList } ∨ (⟨"a".toList, some "2".toList⟩ : Loop) = l := by
      simpa [loops, Piece.loop?, ps] using hl
    rcases hcases with rfl | rfl <;> exact ⟨⟨_, rfl⟩, by decide, by decide⟩
  have hps : ∀ p ∈ ps, p.Plain := by decide
  have hresult := result_resolve_spell hps hsup (by decide) (by decide) (by decide)
  exact ⟨by decide, by decide, _, hresult, by decide, by decide, by decide⟩

end Context

end Wcl
