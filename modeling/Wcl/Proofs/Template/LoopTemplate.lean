import Mathlib.Data.List.Basic
import Wcl.Proofs.Template.References
import Wcl.Proofs.Text.Scan
import Wcl.Template.Loop

/-!
# Texts of loops

A text whose dollar signs begin loop tokens is a list of pieces, plain
characters and loops.  The first loop is what the search for a loop token finds
(`first?_spell`), the forms of substitution find nothing (`first?_form_spell`),
and replacing a token puts its text for the loop in every place
(`replaceAll_spell`).  To put a text for the first of
the distinct loops leaves the others (`distinctLoops_put`).
-/

namespace Wcl

/-! ### Loops -/

/-- A variable, and the width that its values are padded to if there is one. -/
structure Loop where
  name : Text
  width : Option Text := none
  deriving DecidableEq, Repr

namespace Loop

/-- The name, and the width behind a colon. -/
def body (l : Loop) : Text :=
  match l.width with
  | none => l.name
  | some w => l.name ++ ':' :: w

/-- The token of a loop. -/
def token (l : Loop) : Token := ⟨loopToken l.body, l.body⟩

/-- A loop with a plain name, whose token holds no other one. -/
structure Plain (l : Loop) : Prop where
  ne_nil : l.name ≠ []
  colon : ':' ∉ l.name
  dollar : '$' ∉ l.body
  brace : '}' ∉ l.body

instance (l : Loop) : Decidable l.Plain :=
  decidable_of_iff (l.name ≠ [] ∧ ':' ∉ l.name ∧ '$' ∉ l.body ∧ '}' ∉ l.body)
    ⟨fun h => ⟨h.1, h.2.1, h.2.2.1, h.2.2.2⟩, fun h => ⟨h.ne_nil, h.colon, h.dollar, h.brace⟩⟩

/-- What a loop shows for a value. -/
def shown (l : Loop) (value : Text) : Text :=
  match l.width with
  | none => value
  | some w => (Text.zeroPad? value w).getD []

variable {l l' : Loop}

theorem Plain.cutAt_body (h : l.Plain) : Text.cutAt ':' l.body = (l.name, l.width) := by
  unfold body
  cases l.width with
  | none => exact Text.cutAt_of_notMem h.colon
  | some w => exact Text.cutAt_append h.colon w

theorem Plain.nameIn_body (h : l.Plain) : Token.nameIn l.body = l.name := by
  rw [Token.nameIn, h.cutAt_body]

theorem Plain.widthIn?_body (h : l.Plain) : Token.widthIn? l.body = l.width := by
  rw [Token.widthIn?, h.cutAt_body]

theorem Plain.body_ne_nil (h : l.Plain) : l.body ≠ [] := by
  unfold body
  cases l.width with
  | none => exact h.ne_nil
  | some w => simp

theorem Plain.isToken (h : l.Plain) : IsToken .loop l.token where
  ne_nil := h.body_ne_nil
  dollar := h.dollar
  brace := h.brace
  spelled := ⟨loopOpener, rfl, by simp [token, loopToken]⟩

/-- The token tells the loop. -/
theorem Plain.eq_of_spelling (h : l.Plain) (h' : l'.Plain)
    (he : l.token.spelling = l'.token.spelling) : l = l' := by
  have hbody : l.body = l'.body := List.append_cancel_left (List.append_cancel_right he)
  have hcut := h.cutAt_body
  rw [hbody, h'.cutAt_body] at hcut
  cases l
  cases l'
  cases hcut
  rfl

end Loop

/-! ### Pieces -/

/-- A piece of a text. -/
inductive Piece
  | char (c : Char)
  | loop (l : Loop)
  deriving DecidableEq, Repr

namespace Piece

/-- How a piece is written. -/
def text : Piece → Text
  | .char c => [c]
  | .loop l => l.token.spelling

/-- The loop that a piece is. -/
def loop? : Piece → Option Loop
  | .char _ => none
  | .loop l => some l

/-- The piece with a text for a loop. -/
def put (l : Loop) (t : Text) : Piece → List Piece
  | .char c => [.char c]
  | .loop l' => if l' = l then t.map .char else [.loop l']

/-- A character that is no dollar sign, or a plain loop. -/
def Plain : Piece → Prop
  | .char c => c ≠ '$'
  | .loop l => l.Plain

instance : (p : Piece) → Decidable p.Plain
  | .char c => inferInstanceAs (Decidable (c ≠ '$'))
  | .loop l => inferInstanceAs (Decidable l.Plain)

end Piece

/-- The text of some pieces. -/
def spell (ps : List Piece) : Text := ps.flatMap Piece.text

/-- The loops among some pieces, in order. -/
def loops (ps : List Piece) : List Loop := ps.filterMap Piece.loop?

/-- The different loops among some pieces, in order of first occurrence. -/
def distinctLoops (ps : List Piece) : List Loop := (loops ps).eraseDups

/-- The pieces with a text for a loop. -/
def put (l : Loop) (t : Text) (ps : List Piece) : List Piece := ps.flatMap (Piece.put l t)

variable {ps : List Piece} {l l' : Loop} {t : Text}

@[simp] theorem spell_char (c : Char) (ps : List Piece) : spell (.char c :: ps) = c :: spell ps :=
  rfl

@[simp] theorem spell_loop (l : Loop) (ps : List Piece) :
    spell (.loop l :: ps) = l.token.spelling ++ spell ps := rfl

@[simp] theorem loops_char (c : Char) (ps : List Piece) : loops (.char c :: ps) = loops ps := rfl

@[simp] theorem loops_loop (l : Loop) (ps : List Piece) : loops (.loop l :: ps) = l :: loops ps :=
  rfl

@[simp] theorem put_char (l : Loop) (t : Text) (c : Char) (ps : List Piece) :
    put l t (.char c :: ps) = .char c :: put l t ps := rfl

@[simp] theorem put_loop_self (l : Loop) (t : Text) (ps : List Piece) :
    put l t (.loop l :: ps) = t.map .char ++ put l t ps := by
  rw [put, List.flatMap_cons, Piece.put, if_pos rfl]
  rfl

theorem put_loop_of_ne (h : l' ≠ l) (t : Text) (ps : List Piece) :
    put l t (.loop l' :: ps) = .loop l' :: put l t ps := by
  rw [put, List.flatMap_cons, Piece.put, if_neg h]
  rfl

theorem spell_map_char_append (t : Text) (ps : List Piece) :
    spell (t.map .char ++ ps) = t ++ spell ps := by
  induction t with
  | nil => rfl
  | cons c t ih => rw [List.map_cons, List.cons_append, spell_char, ih, List.cons_append]

theorem loops_map_char_append (t : Text) (ps : List Piece) :
    loops (t.map .char ++ ps) = loops ps := by
  induction t with
  | nil => rfl
  | cons c t ih => rw [List.map_cons, List.cons_append, loops_char, ih]

/-- Replacing the token of a loop is putting the text for the loop. -/
theorem replaceAll_spell (hps : ∀ p ∈ ps, p.Plain) (hl : l.Plain) (t : Text) :
    Text.replaceAll l.token.spelling t (spell ps) = spell (put l t ps) := by
  induction ps with
  | nil => rfl
  | cons p ps ih =>
    obtain ⟨hp, hrest⟩ := List.forall_mem_cons.1 hps
    cases p with
    | char c =>
      rw [spell_char, put_char, spell_char, ← ih hrest]
      exact Text.replaceAll_cons_of_ne hl.isToken.isSpelling hp t (spell ps)
    | loop l' =>
      have hl' : l'.Plain := hp
      by_cases he : l' = l
      · subst he
        rw [spell_loop, put_loop_self, spell_map_char_append, ← ih hrest,
          Text.replaceAll_append hl.isToken.isSpelling.ne_nil]
      · have hne : l.token.spelling ≠ l'.token.spelling :=
          fun hs => he (hl.eq_of_spelling hl' hs).symm
        rw [spell_loop, put_loop_of_ne he, spell_loop, ← ih hrest,
          Text.replaceAll_of_ne hl.isToken.isSpelling hl'.isToken.isSpelling hne]

theorem plain_put (hps : ∀ p ∈ ps, p.Plain) (ht : '$' ∉ t) : ∀ p ∈ put l t ps, p.Plain := by
  intro p hp
  obtain ⟨q, hq, hp⟩ := List.mem_flatMap.1 hp
  cases q with
  | char c =>
    obtain rfl := List.mem_singleton.1 hp
    exact hps _ hq
  | loop l' =>
    rw [Piece.put] at hp
    split at hp
    · obtain ⟨c, hc, rfl⟩ := List.mem_map.1 hp
      exact fun he => ht (he ▸ hc)
    · obtain rfl := List.mem_singleton.1 hp
      exact hps _ hq

/-! ### The loops of a text -/

theorem plain_of_mem_loops (hps : ∀ p ∈ ps, p.Plain) (hl : l ∈ loops ps) : l.Plain := by
  obtain ⟨p, hp, he⟩ := List.mem_filterMap.1 hl
  cases p with
  | char c => cases he
  | loop l' =>
    cases he
    exact hps _ hp

theorem first?_spell (hps : ∀ p ∈ ps, p.Plain) :
    Token.first? loopKind (spell ps) = (loops ps).head?.map Loop.token := by
  induction ps with
  | nil => rfl
  | cons p ps ih =>
    obtain ⟨hp, hrest⟩ := List.forall_mem_cons.1 hps
    cases p with
    | char c =>
      rw [spell_char, Token.first?_cons_of_ne rfl hp, ih hrest, loops_char]
    | loop l =>
      have hl : l.Plain := hp
      rw [spell_loop, loops_loop]
      exact hl.isToken.first?_eq (spell ps)

theorem first?_form_spell (hps : ∀ p ∈ ps, p.Plain) (form : Form) :
    Token.first? form.kind (spell ps) = none := by
  induction ps with
  | nil => rfl
  | cons p ps ih =>
    obtain ⟨hp, hrest⟩ := List.forall_mem_cons.1 hps
    cases p with
    | char c =>
      rw [spell_char, Token.first?_cons_of_ne form.head?_opener hp, ih hrest]
    | loop l =>
      have hl : l.Plain := hp
      have hne : Use.form form ≠ .loop := fun he => nomatch he
      rw [spell_loop, ← ih hrest]
      exact hl.isToken.first?_of_ne hne (spell ps)

/-- The first loop is the first of the distinct ones. -/
theorem head?_loops (ps : List Piece) : (loops ps).head? = (distinctLoops ps).head? := by
  rw [distinctLoops]
  cases loops ps with
  | nil => rfl
  | cons l ls => rw [List.eraseDups_cons, List.head?_cons, List.head?_cons]

theorem head?_loops_of_distinctLoops {ls : List Loop} (h : distinctLoops ps = l :: ls) :
    (loops ps).head? = some l := by
  rw [head?_loops, h, List.head?_cons]

theorem distinctLoops_ne_nil (h : loops ps ≠ []) : distinctLoops ps ≠ [] := by
  intro hnil
  have hhead := head?_loops ps
  rw [hnil] at hhead
  exact h (List.head?_eq_none_iff.1 hhead)

theorem hasLoops_spell (hps : ∀ p ∈ ps, p.Plain) :
    hasLoops (spell ps) = !(distinctLoops ps).isEmpty := by
  rw [hasLoops, first?_spell hps, head?_loops]
  cases distinctLoops ps <;> rfl

theorem loops_put (l : Loop) (t : Text) (ps : List Piece) :
    loops (put l t ps) = (loops ps).filter fun l' => !l' == l := by
  induction ps with
  | nil => rfl
  | cons p ps ih =>
    cases p with
    | char c => rw [put_char, loops_char, loops_char, ih]
    | loop l' =>
      by_cases he : l' = l
      · subst he
        rw [put_loop_self, loops_map_char_append, loops_loop, ih, List.filter_cons_of_neg (by simp)]
      · rw [put_loop_of_ne he, loops_loop, loops_loop, ih, List.filter_cons_of_pos (by simp [he])]

/-- To put a text for the first of the distinct loops leaves the others. -/
theorem distinctLoops_put {ls : List Loop} (h : distinctLoops ps = l :: ls) (t : Text) :
    distinctLoops (put l t ps) = ls := by
  rw [distinctLoops] at h ⊢
  rw [loops_put]
  cases hl : loops ps with
  | nil =>
    rw [hl] at h
    cases h
  | cons l' ls' =>
    rw [hl, List.eraseDups_cons] at h
    obtain ⟨rfl, rfl⟩ := List.cons.inj h
    rw [List.filter_cons_of_neg (by simp)]

end Wcl
