import Mathlib.Data.List.Pairwise
import Wcl.Proofs.Document.Scalars
import Wcl.Proofs.Template.Expansion
import Wcl.Template.Variables

/-!
# What the scan for variables sees

The scan reads a token from its opening brace to the next closing one, and a
dollar sign may stand between them.  Substitution looks for the innermost token:
the one that begins at the last dollar sign in front of a closing brace.  So
each token that substitution finds is the innermost part of one that the scan
finds, and in the same order (`Token.all_required`).

Where no token of the scan has a dollar sign in its body the two find the same,
and the scan gives the names that substitution asks for
(`Document.referencedVariables_agree`).  A name with a dollar sign in it is of
the scan alone.
-/

namespace Wcl

/-! ### Names in order -/

namespace Text

/-- Texts in order, each once. -/
abbrev Ascending (ts : List Text) : Prop := ts.Pairwise fun a b => atMost a b = true ∧ a ≠ b

variable {t u : Text} {us : List Text}

theorem mem_addSorted : u ∈ addSorted t us ↔ u = t ∨ u ∈ us := by
  induction us with
  | nil => simp [addSorted]
  | cons v us ih =>
    rw [addSorted]
    split
    · next h => simp [h]
    · split
      · simp
      · simp [ih, or_left_comm]

theorem Ascending.addSorted (h : Ascending us) (t : Text) : Ascending (addSorted t us) := by
  induction us with
  | nil => simp [Text.addSorted]
  | cons v us ih =>
    obtain ⟨hv, hus⟩ := List.pairwise_cons.1 h
    rw [Text.addSorted]
    split
    · exact h
    · next hne =>
      split
      · next hle =>
        refine List.pairwise_cons.2 ⟨fun u hu => ?_, h⟩
        rcases List.mem_cons.1 hu with rfl | hu
        · exact ⟨hle, hne⟩
        · obtain ⟨hvu, _⟩ := hv u hu
          refine ⟨atMost_trans hle hvu, ?_⟩
          rintro rfl
          exact hne (atMost_antisymm hle hvu)
      · next hle =>
        have hvt : atMost v t = true := by
          have htotal := atMost_total t v
          rwa [Bool.or_eq_true, or_iff_right hle] at htotal
        refine List.pairwise_cons.2 ⟨fun u hu => ?_, ih hus⟩
        rcases mem_addSorted.1 hu with rfl | hu
        · exact ⟨hvt, Ne.symm hne⟩
        · exact hv u hu

end Text

/-! ### Reading all tokens -/

namespace Token

variable {kind : TokenKind} {token : Token} {c : Char} {t : Text}

theorem all_cons_of_none (h : at? kind (c :: t) = none) : all kind (c :: t) = all kind t := by
  rw [all, allFrom, h]
  rfl

/-- Behind a token the reading goes on with the rest. -/
theorem all_append_of_at? (h : at? kind (token.spelling ++ t) = some token) :
    all kind (token.spelling ++ t) = token :: all kind t := by
  obtain ⟨w, _, _, hspelling, _⟩ := exists_of_at? h
  obtain ⟨c, r, hr⟩ : ∃ c r, token.spelling = c :: r := by
    refine List.exists_cons_of_ne_nil ?_
    rw [hspelling]
    simp
  rw [hr, List.cons_append] at h ⊢
  rw [all, allFrom, h]
  dsimp only
  rw [allFrom_eq_drop, hr]
  simp

/-- All tokens are read by going through a text: behind a token, or behind a
character where none begins. -/
theorem all_induction (kind : TokenKind) {motive : Text → Prop} (nil : motive [])
    (char : ∀ c t, at? kind (c :: t) = none → motive t → motive (c :: t))
    (token : ∀ token t, at? kind (token.spelling ++ t) = some token → motive t →
      motive (token.spelling ++ t)) (t : Text) : motive t := by
  induction hlen : t.length using Nat.strongRecOn generalizing t with
  | ind n ih =>
  subst hlen
  cases t with
  | nil => exact nil
  | cons c r =>
    cases hat : at? kind (c :: r) with
    | none => exact char c r hat (ih _ (Nat.lt_succ_self r.length) r rfl)
    | some tok =>
      obtain ⟨w, r', _, hspelling, _, _, ht⟩ := exists_of_at? hat
      have hshort : r'.length < (c :: r).length := by
        rw [ht, hspelling]
        simp
        omega
      rw [ht] at hat ⊢
      exact token tok r' hat (ih _ hshort r' rfl)

/-- What is among all tokens is read at some place. -/
theorem exists_at?_of_mem_all (h : token ∈ all kind t) : ∃ t', at? kind t' = some token := by
  induction t using all_induction kind with
  | nil => cases h
  | char c t hnone ih =>
    rw [all_cons_of_none hnone] at h
    exact ih h
  | token token' t hat ih =>
    rw [all_append_of_at? hat] at h
    rcases List.mem_cons.1 h with rfl | h
    · exact ⟨_, hat⟩
    · exact ih h

end Token

/-! ### Innermost tokens -/

/-- The part of a text from the last `d` on. -/
def Text.fromLast (d : Char) : Text → Text
  | [] => []
  | c :: r => if d ∈ r then fromLast d r else if c = d then c :: r else []

theorem Text.fromLast_of_notMem {d : Char} {t : Text} (h : d ∉ t) : fromLast d t = [] := by
  cases t with
  | nil => rfl
  | cons c r =>
    obtain ⟨hc, hr⟩ := not_or.1 (mt List.mem_cons.2 h)
    rw [fromLast, if_neg hr, if_neg (Ne.symm hc)]

theorem Text.fromLast_cons_of_mem {d : Char} {t : Text} (h : d ∈ t) (c : Char) :
    fromLast d (c :: t) = fromLast d t := by
  rw [fromLast, if_pos h]

theorem Text.fromLast_self {d : Char} {t : Text} (h : d ∉ t) : fromLast d (d :: t) = d :: t := by
  rw [fromLast, if_neg h, if_pos rfl]

/-- The token of a required variable that begins at the last dollar sign. -/
def Token.innermost? (token : Token) : Option Token :=
  at? Form.required.kind (Text.fromLast '$' token.spelling)

/-- What is read at a place for a form is a token. -/
theorem Form.isToken_of_at? {form : Form} {t : Text} {token : Token}
    (h : Token.at? form.kind t = some token) : IsToken (.form form) token := by
  obtain ⟨_, _, _, _, _, hin, _⟩ := Token.exists_of_at? h
  exact Wcl.isToken_of_at? h fun hm => by simpa [Form.kind] using hin _ hm

namespace Token

variable {p t : Text} {token : Token}

/-- What substitution reads at a place the scan reads there as well. -/
theorem at?_referenceKind (h : at? Form.required.kind t = some token) :
    at? referenceKind t = some token := by
  obtain ⟨w, r, hw, hspelling, hne, hin, rfl⟩ := exists_of_at? h
  have hw' : w.map Char.toLower = referenceKind.opener.map Char.toLower := hw
  have hbody : ∀ c ∈ token.body, referenceKind.inBody c = true := by
    intro c hc
    have hc := hin c hc
    simp only [Form.kind, Bool.and_eq_true] at hc
    exact hc.2
  have hat := at?_append hw' hne hbody rfl r
  rwa [← hspelling] at hat

/-- A token that begins where a text does that ends with its first closing brace
is all of that text. -/
theorem spelling_of_at?_required (hp : '}' ∉ p)
    (h : at? Form.required.kind (p ++ '}' :: t) = some token) : token.spelling = p ++ ['}'] := by
  obtain ⟨_, r, _, _, _, _, ht⟩ := exists_of_at? h
  obtain ⟨body, hbody, _, hb⟩ := (Form.isToken_of_at? h).isSpelling
  rw [hbody, List.cons_append, List.append_assoc, List.singleton_append] at ht
  have hfront : '}' ∉ '$' :: body := List.not_mem_cons_of_ne_of_not_mem (by decide) hb
  obtain ⟨rfl, rfl⟩ := append_brace_inj hp hfront ht
  exact hbody

/-- Up to the first closing brace there is no token but the innermost one. -/
theorem all_required_append (hp : '}' ∉ p) (t : Text) :
    all Form.required.kind (p ++ '}' :: t) =
      (at? Form.required.kind (Text.fromLast '$' (p ++ ['}']))).toList ++
        all Form.required.kind t := by
  induction p with
  | nil =>
    have hbrace : at? Form.required.kind ('}' :: t) = none := at?_cons_of_ne rfl (by decide) t
    exact all_cons_of_none hbrace
  | cons c p ih =>
    have hrest := ih fun hm => hp (List.mem_cons_of_mem c hm)
    rw [List.cons_append, List.cons_append]
    cases hat : at? Form.required.kind (c :: (p ++ '}' :: t)) with
    | some token =>
      -- The token ends with the brace, so there is no dollar sign behind its own.
      have hspelling : token.spelling = c :: (p ++ ['}']) := spelling_of_at?_required hp hat
      have hwhole : c :: (p ++ '}' :: t) = token.spelling ++ t := by simp [hspelling]
      have htoken := Form.isToken_of_at? hat
      obtain ⟨r, hr, hdollar⟩ := htoken.isSpelling.exists_cons
      rw [hspelling] at hr
      obtain ⟨rfl, rfl⟩ := List.cons.inj hr
      have hself : at? Form.required.kind (token.spelling ++ []) = some token := htoken.at?_eq []
      rw [List.append_nil, hspelling] at hself
      rw [Text.fromLast_self hdollar, hself, hwhole]
      exact all_append_of_at? (hwhole ▸ hat)
    | none =>
      rw [all_cons_of_none hat, hrest]
      by_cases hlast : '$' ∈ p ++ ['}']
      · rw [Text.fromLast_cons_of_mem hlast]
      · rw [Text.fromLast_of_notMem hlast]
        by_cases hc : c = '$'
        · -- What begins no token here begins none in front of another text.
          subst hc
          rw [Text.fromLast_self hlast]
          cases hself : at? Form.required.kind ('$' :: (p ++ ['}'])) with
          | none => rfl
          | some token =>
            have hspelling : token.spelling = '$' :: (p ++ ['}']) :=
              spelling_of_at?_required (t := []) hp hself
            have htoken := (Form.isToken_of_at? hself).at?_eq t
            rw [hspelling, List.cons_append, List.append_assoc, List.singleton_append] at htoken
            rw [show at? Form.required.kind _ = _ from htoken] at hat
            cases hat
        · rw [Text.fromLast_of_notMem (List.not_mem_cons_of_ne_of_not_mem (Ne.symm hc) hlast)]

/-- **Substitution sees the innermost tokens** of those that the scan sees. -/
theorem all_required (t : Text) :
    all Form.required.kind t = (all referenceKind t).filterMap innermost? := by
  induction t using all_induction referenceKind with
  | nil => rfl
  | char c t hnone ih =>
    have hnone' : at? Form.required.kind (c :: t) = none := by
      cases h : at? Form.required.kind (c :: t) with
      | none => rfl
      | some token =>
        rw [at?_referenceKind h] at hnone
        cases hnone
    rw [all_cons_of_none hnone, all_cons_of_none hnone', ih]
  | token token t hat ih =>
    obtain ⟨w, _, hw, hspelling, _, hin, _⟩ := exists_of_at? hat
    have hbrace : '}' ∉ w ++ token.body := by
      obtain ⟨_, _, rfl, _, _, hopener⟩ := @Use.exists_of_opener (.form .required) _ hw
      rw [List.mem_append, not_or]
      exact ⟨List.not_mem_cons_of_ne_of_not_mem (by decide) hopener,
        fun hm => by simpa [referenceKind] using hin _ hm⟩
    have hsplit : token.spelling = (w ++ token.body) ++ ['}'] := by simp [hspelling]
    have hread := all_required_append hbrace t
    rw [← hsplit] at hread
    have hall : all Form.required.kind (token.spelling ++ t) =
        token.innermost?.toList ++ all Form.required.kind t := by
      rw [hsplit, List.append_assoc]
      exact hread
    rw [all_append_of_at? hat, hall, ih, List.filterMap_cons]
    cases token.innermost? <;> rfl

/-- A token of the scan without a dollar sign in its body is its own innermost part. -/
theorem innermost?_of_notMem (h : token ∈ all referenceKind t) (hdollar : '$' ∉ token.body) :
    token.innermost? = some token := by
  obtain ⟨t', hat⟩ := exists_at?_of_mem_all h
  obtain ⟨w, _, hw, hspelling, hne, hin, _⟩ := exists_of_at? hat
  have hbrace : '}' ∉ token.body := fun hm => by simpa [referenceKind] using hin _ hm
  have htoken : IsToken (.form .required) token := ⟨hne, hdollar, hbrace, w, hw, hspelling⟩
  obtain ⟨r, hr, hrest⟩ := htoken.isSpelling.exists_cons
  have hself : at? Form.required.kind (token.spelling ++ []) = some token := htoken.at?_eq []
  rw [innermost?, hr, Text.fromLast_self hrest, ← hr, ← List.append_nil token.spelling, hself]

end Token

/-! ### A whole document -/

theorem Entries.mem_referencedNames {e : Entries} {n : Text} :
    n ∈ e.referencedNames ↔ ∃ t ∈ e.scalars, n ∈ Wcl.referencedNames t := by
  induction e with
  | nil => simp [referencedNames, scalars]
  | scalar k t rest ih => simp [referencedNames, scalars, ih]
  | nested k o inner rest ihinner ih =>
    simp only [referencedNames, scalars, List.mem_append, ihinner, ih, or_and_right, exists_or]

namespace Document

/-- Substitution finds a token with this name in a scalar of the document. -/
def Requires (d : Document) (n : Text) : Prop :=
  ∃ t ∈ d.entries.scalars, ∃ token ∈ Token.all Form.required.kind t, Token.nameIn token.body = n

variable {d : Document} {n : Text}

theorem mem_referencedVariables : n ∈ d.referencedVariables ↔
    ∃ t ∈ d.entries.scalars, ∃ token ∈ Token.all referenceKind t, Token.nameIn token.body = n := by
  have hfold : ∀ ns : List Text, n ∈ ns.foldr Text.addSorted [] ↔ n ∈ ns := by
    intro ns
    induction ns with
    | nil => rfl
    | cons m ns ih => rw [List.foldr_cons, Text.mem_addSorted, ih, List.mem_cons]
  rw [referencedVariables, hfold, Entries.mem_referencedNames]
  simp only [referencedNames, List.mem_map]

theorem ascending_referencedVariables (d : Document) : Text.Ascending d.referencedVariables := by
  rw [referencedVariables]
  induction d.entries.referencedNames with
  | nil => exact .nil
  | cons n ns ih => exact ih.addSorted n

/-- Substitution asks for the names in the innermost parts of the scan's tokens. -/
theorem requires_iff : d.Requires n ↔ ∃ t ∈ d.entries.scalars,
    ∃ token ∈ Token.all referenceKind t, ∃ inner, token.innermost? = some inner ∧
      Token.nameIn inner.body = n := by
  simp only [Requires, Token.all_required, List.mem_filterMap]
  refine exists_congr fun t => and_congr_right fun _ => ⟨?_, ?_⟩
  · rintro ⟨inner, ⟨token, htoken, hinner⟩, hn⟩
    exact ⟨token, htoken, inner, hinner, hn⟩
  · rintro ⟨token, htoken, inner, hinner, hn⟩
    exact ⟨inner, ⟨token, htoken, hinner⟩, hn⟩

/-- A name that substitution asks for has no dollar sign. -/
theorem Requires.notMem (h : d.Requires n) : '$' ∉ n := by
  obtain ⟨t, _, token, htoken, rfl⟩ := h
  obtain ⟨t', hat⟩ := Token.exists_at?_of_mem_all htoken
  exact fun hm => (Form.isToken_of_at? hat).dollar (Text.cutAt_subset ':' _ hm)

/-- **What the scan gives.**  The scan gives the names in its own tokens, in order and
each once; substitution asks for those in the innermost parts of these.  The names
are the same if no token of the scan has a dollar sign in its body, and a name with
a dollar sign is none that substitution asks for. -/
theorem referencedVariables_agree (d : Document) :
    Text.Ascending d.referencedVariables ∧
      (∀ n, n ∈ d.referencedVariables ↔ ∃ t ∈ d.entries.scalars,
        ∃ token ∈ Token.all referenceKind t, Token.nameIn token.body = n) ∧
      (∀ n, d.Requires n ↔ ∃ t ∈ d.entries.scalars, ∃ token ∈ Token.all referenceKind t,
        ∃ inner, token.innermost? = some inner ∧ Token.nameIn inner.body = n) ∧
      ((∀ t ∈ d.entries.scalars, ∀ token ∈ Token.all referenceKind t, '$' ∉ token.body) →
        ∀ n, n ∈ d.referencedVariables ↔ d.Requires n) ∧
      ∀ n ∈ d.referencedVariables, '$' ∈ n → ¬ d.Requires n := by
  refine ⟨d.ascending_referencedVariables, fun _ => mem_referencedVariables,
    fun _ => requires_iff, fun hplain n => ?_, fun n _ hdollar hn => hn.notMem hdollar⟩
  rw [mem_referencedVariables, requires_iff]
  refine exists_congr fun t => and_congr_right fun ht => exists_congr fun token =>
    and_congr_right fun htoken => ?_
  rw [Token.innermost?_of_notMem htoken (hplain t ht token htoken)]
  simp

/-- Two tokens with widths, one of a variable that is there twice, and a token of an
optional variable, in sections. -/
theorem referencedVariables_agree_sections :
    let d := ofList [("a".toList, .scalar "$\x7by:3\x7d/$\x7bx\x7d$".toList),
      ("s".toList, .nested (ofList [("b".toList,
        .scalar "$opt\x7bw\x7d $\x7bz:2\x7d\x7d$\x7by\x7d".toList)]))]
    (∀ t ∈ d.entries.scalars, ∀ token ∈ Token.all referenceKind t, '$' ∉ token.body) ∧
      d.referencedVariables = ["x".toList, "y".toList, "z".toList] ∧
      ∀ n, n ∈ ["x".toList, "y".toList, "z".toList] ↔ d.Requires n := by
  intro d
  have hplain : ∀ t ∈ d.entries.scalars, ∀ token ∈ Token.all referenceKind t,
      '$' ∉ token.body := by decide
  have hnames : d.referencedVariables = ["x".toList, "y".toList, "z".toList] := by decide
  exact ⟨hplain, hnames, hnames ▸ d.referencedVariables_agree.2.2.2.1 hplain⟩

/-- In a reference whose name another one builds the scan misses the inner name and
gives one that no token has. -/
theorem referencedVariables_misses_inner :
    let d := ofList [("p".toList, .scalar "$\x7brms_$\x7bband\x7d\x7d".toList)]
    d.referencedVariables = ["rms_$\x7bband".toList] ∧ d.Requires "band".toList ∧
      ¬ d.Requires "rms_$\x7bband".toList ∧
      ¬ ∀ n, n ∈ d.referencedVariables ↔ d.Requires n := by
  intro d
  have hnames : d.referencedVariables = ["rms_$\x7bband".toList] := by decide
  have hinner : d.Requires "band".toList :=
    ⟨"$\x7brms_$\x7bband\x7d\x7d".toList, by decide, ⟨"$\x7bband\x7d".toList, "band".toList⟩,
      by decide, by decide⟩
  have houter : ¬ d.Requires "rms_$\x7bband".toList := fun h => h.notMem (by decide)
  refine ⟨hnames, hinner, houter, fun hall => ?_⟩
  exact houter ((hall _).1 (by rw [hnames]; exact List.mem_singleton_self _))

end Document

end Wcl
