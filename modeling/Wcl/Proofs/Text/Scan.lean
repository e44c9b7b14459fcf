import Mathlib.Data.List.DropRight
import Wcl.Text.Basic

/-!
# Laws of the scanners

What the pieces of a line are cut with: `afterStart?` takes a beginning off,
`trim` takes the blanks off either end, and a run of characters is
`takeWhile` and `dropWhile`.

A text that neither begins nor ends with a blank is `Tight`, and those are the
texts that `trim` leaves alone; `trim_append` says what is left of a text in
front of which blanks have been put.
-/

namespace Wcl.Text

/-! ### Beginnings -/

theorem afterStart?_eq_some_iff {start t r : Text} :
    afterStart? start t = some r ↔ t = start ++ r := by
  rw [afterStart?, List.isPrefixOf?_eq_some_iff_append_eq, eq_comm]

@[simp] theorem afterStart?_append (start r : Text) : afterStart? start (start ++ r) = some r :=
  afterStart?_eq_some_iff.2 rfl

theorem afterStart?_eq_none_iff {start t : Text} :
    afterStart? start t = none ↔ ¬ start <+: t := by
  rw [Option.eq_none_iff_forall_ne_some]
  constructor
  · rintro h ⟨r, rfl⟩
    exact h r (afterStart?_append start r)
  · intro h r hr
    exact h ⟨r, (afterStart?_eq_some_iff.1 hr).symm⟩

theorem cutAt_of_notMem {d : Char} {t : Text} (h : d ∉ t) : cutAt d t = (t, none) := by
  induction t with
  | nil => rfl
  | cons c t ih =>
    obtain ⟨hc, ht⟩ := not_or.1 (mt List.mem_cons.2 h)
    rw [cutAt, if_neg (Ne.symm hc), ih ht]

theorem cutAt_append {d : Char} {t : Text} (h : d ∉ t) (r : Text) :
    cutAt d (t ++ d :: r) = (t, some r) := by
  induction t with
  | nil => exact if_pos rfl
  | cons c t ih =>
    obtain ⟨hc, ht⟩ := not_or.1 (mt List.mem_cons.2 h)
    rw [List.cons_append, cutAt, if_neg (Ne.symm hc), ih ht]

theorem notMem_cutAt (d : Char) (t : Text) : d ∉ (cutAt d t).1 := by
  induction t with
  | nil => exact List.not_mem_nil
  | cons c t ih =>
    rw [cutAt]
    split
    · exact List.not_mem_nil
    · next hc => exact fun h => (List.mem_cons.1 h).elim (Ne.symm hc) ih

theorem cutAt_subset (d : Char) (t : Text) : (cutAt d t).1 ⊆ t := by
  induction t with
  | nil => exact List.Subset.refl _
  | cons c t ih =>
    rw [cutAt]
    split
    · exact List.nil_subset _
    · exact List.cons_subset_cons c ih

/-- Nothing but the delimiter is lost in a cut. -/
theorem mem_cutAt {d ch : Char} {t : Text} (hch : ch ≠ d) (h : ch ∈ t) :
    ch ∈ (cutAt d t).1 ∨ ∃ rest, (cutAt d t).2 = some rest ∧ ch ∈ rest := by
  induction t with
  | nil => exact absurd h List.not_mem_nil
  | cons c t ih =>
    rw [cutAt]
    split
    · next hc => exact .inr ⟨t, rfl, (List.mem_cons.1 h).resolve_left (hc ▸ hch)⟩
    · rcases List.mem_cons.1 h with rfl | h
      · exact .inl (List.mem_cons_self ..)
      · exact (ih h).imp_left (List.mem_cons_of_mem c)

/-! ### Blanks at the ends -/

theorem trimEnd_eq_rdropWhile (t : Text) : trimEnd t = t.rdropWhile isBlank := by
  have hkept : ∀ (t s : Text), s ≠ [] →
      t.foldr (fun c r => if r.isEmpty && isBlank c then [] else c :: r) s = t ++ s := by
    intro t
    induction t with
    | nil => intro s _; rfl
    | cons c t ih =>
      intro s hs
      rw [List.foldr_cons, ih s hs]
      simp [hs]
  induction t using List.reverseRecOn with
  | nil => rfl
  | append_singleton t c ih =>
    by_cases h : isBlank c
    · rw [List.rdropWhile_concat_pos isBlank t c h, ← ih]
      simp [trimEnd, List.foldr_append, h]
    · rw [List.rdropWhile_concat_neg isBlank t c h, trimEnd, List.foldr_append]
      simpa [h] using hkept t [c] (by simp)

theorem trimEnd_concat {c : Char} (h : isBlank c = false) (t : Text) :
    trimEnd (t ++ [c]) = t ++ [c] := by
  rw [trimEnd_eq_rdropWhile, List.rdropWhile_concat_neg isBlank t c (by simp [h])]

theorem trimEnd_cons {c : Char} (h : isBlank c = false) (t : Text) :
    trimEnd (c :: t) = c :: trimEnd t := by
  simp [trimEnd, h]

theorem trimEnd_append {s : Text} (h : ∀ c ∈ s, isBlank c = false) (t : Text) :
    trimEnd (s ++ t) = s ++ trimEnd t := by
  induction s with
  | nil => rfl
  | cons c s ih =>
    obtain ⟨hc, hs⟩ := List.forall_mem_cons.1 h
    rw [List.cons_append, trimEnd_cons hc, ih hs, List.cons_append]

theorem trimStart_cons {c : Char} (h : isBlank c = false) (t : Text) :
    trimStart (c :: t) = c :: t := by
  simp [trimStart, h]

theorem trimStart_append {p : Text} (h : ∀ c ∈ p, isBlank c = true) (t : Text) :
    trimStart (p ++ t) = trimStart t :=
  List.dropWhile_append_of_pos h

theorem trim_append {p : Text} (h : ∀ c ∈ p, isBlank c = true) (t : Text) :
    trim (p ++ t) = trim t := by
  rw [trim, trimStart_append h, trim]

theorem trimEnd_eq_nil_iff {t : Text} : trimEnd t = [] ↔ ∀ c ∈ t, isBlank c = true := by
  rw [trimEnd_eq_rdropWhile, List.rdropWhile_eq_nil_iff]

/-- Blanks behind a text are cut off. -/
theorem trimEnd_append_blanks {p : Text} (h : ∀ c ∈ p, isBlank c = true) (t : Text) :
    trimEnd (t ++ p) = trimEnd t := by
  induction p using List.reverseRecOn with
  | nil => rw [List.append_nil]
  | append_singleton p c ih =>
    rw [List.forall_mem_append] at h
    rw [← List.append_assoc, trimEnd_eq_rdropWhile,
      List.rdropWhile_concat_pos isBlank _ c (h.2 c (List.mem_singleton.2 rfl)),
      ← trimEnd_eq_rdropWhile, ih h.1]

/-- No blanks are cut off in front of something. -/
theorem trimEnd_append_of_ne_nil {u : Text} (h : trimEnd u ≠ []) (t : Text) :
    trimEnd (t ++ u) = t ++ trimEnd u := by
  induction u using List.reverseRecOn with
  | nil => exact absurd rfl h
  | append_singleton u c ih =>
    by_cases hc : isBlank c
    · have hcut : ∀ v : Text, trimEnd (v ++ [c]) = trimEnd v :=
        trimEnd_append_blanks (List.forall_mem_singleton.2 hc)
      rw [hcut] at h
      rw [← List.append_assoc, hcut, hcut, ih h]
    · have hkept := trimEnd_concat (eq_false_of_ne_true hc)
      rw [← List.append_assoc, hkept, hkept, List.append_assoc]

theorem trimStart_append_blanks {p : Text} (h : ∀ c ∈ p, isBlank c = true) (t : Text) :
    trimStart (t ++ p) = if trimStart t = [] then [] else trimStart t ++ p := by
  have hp : trimStart p = [] := List.dropWhile_eq_nil_iff.2 h
  rw [trimStart, List.dropWhile_append]
  simp only [List.isEmpty_iff]
  exact if_congr Iff.rfl hp rfl

theorem trim_append_blanks {p : Text} (h : ∀ c ∈ p, isBlank c = true) (t : Text) :
    trim (t ++ p) = trim t := by
  rw [trim, trimStart_append_blanks h, trim]
  split
  · next hnil => rw [hnil]
  · exact trimEnd_append_blanks h _

/-- What a text begins with behind its blanks stays if there are no blanks in it. -/
theorem prefix_trim {s t : Text} (hs : ∀ c ∈ s, isBlank c = false) (h : s <+: trimStart t) :
    s <+: trim t := by
  obtain ⟨r, hr⟩ := h
  rw [trim, ← hr, trimEnd_append hs]
  exact List.prefix_append _ _

/-- A text whose ends are no blanks. -/
structure Tight (t : Text) : Prop where
  first : ∀ c ∈ t.head?, isBlank c = false
  last : ∀ c ∈ t.getLast?, isBlank c = false

theorem tight_cons_concat {c d : Char} (hc : isBlank c = false) (hd : isBlank d = false)
    (body : Text) : Tight (c :: (body ++ [d])) := by
  refine ⟨fun x hx => ?_, fun x hx => ?_⟩
  · obtain rfl : c = x := Option.some.inj hx
    exact hc
  · rw [← List.cons_append, List.getLast?_concat] at hx
    obtain rfl : d = x := Option.some.inj hx
    exact hd

theorem Tight.trimStart_eq {t : Text} (h : Tight t) : trimStart t = t := by
  cases t with
  | nil => rfl
  | cons c r => exact trimStart_cons (h.first c rfl) r

theorem Tight.trimEnd_eq {t : Text} (h : Tight t) : trimEnd t = t := by
  induction t using List.reverseRecOn with
  | nil => rfl
  | append_singleton t c _ => exact trimEnd_concat (h.last c (by simp)) t

theorem Tight.trim_eq {t : Text} (h : Tight t) : trim t = t := by
  rw [trim, h.trimStart_eq, h.trimEnd_eq]

theorem tight_of_trim_eq {t : Text} (h : trim t = t) : Tight t := by
  have hs : trimStart t = t := by
    have hlen : (trim t).length ≤ (trimStart t).length := by
      rw [trim, trimEnd_eq_rdropWhile]
      exact (List.rdropWhile_prefix isBlank (trimStart t)).length_le
    rw [h] at hlen
    exact (List.dropWhile_suffix isBlank).eq_of_length_le hlen
  have he : trimEnd t = t := by rwa [trim, hs] at h
  constructor
  · intro c hc
    cases t with
    | nil => cases hc
    | cons d r =>
      obtain rfl : d = c := Option.some.inj hc
      exact eq_false_of_ne_true (List.dropWhile_eq_self_iff.1 hs (Nat.zero_lt_succ _))
  · intro c hc
    rw [trimEnd_eq_rdropWhile, List.rdropWhile_eq_self_iff] at he
    obtain ⟨hne, rfl⟩ := List.mem_getLast?_eq_getLast hc
    simpa using he hne

/-- What has been trimmed stays as it is. -/
theorem trim_trim (t : Text) : trim (trim t) = trim t := by
  have hstart : trimStart (trim t) = trim t := by
    cases hs : trimStart t with
    | nil =>
      rw [trim, hs]
      rfl
    | cons c r =>
      have hc : isBlank c = false := by
        have hfirst := List.head?_dropWhile_not isBlank t
        rwa [show t.dropWhile isBlank = c :: r from hs] at hfirst
      rw [trim, hs, trimEnd_cons hc, trimStart_cons hc]
  rw [trim, hstart, trim, trimEnd_eq_rdropWhile, trimEnd_eq_rdropWhile,
    List.rdropWhile_idempotent]

/-! ### Parts of a text -/

theorem trimStart_subset (t : Text) : trimStart t ⊆ t := (List.dropWhile_suffix isBlank).subset

theorem trim_subset (t : Text) : trim t ⊆ t := by
  intro c hc
  rw [trim, trimEnd_eq_rdropWhile] at hc
  exact trimStart_subset t ((List.rdropWhile_prefix isBlank _).subset hc)

theorem mem_dropWhile {p : Char → Bool} {c : Char} {t : Text} (hc : p c = false) (h : c ∈ t) :
    c ∈ t.dropWhile p := by
  rw [← List.takeWhile_append_dropWhile (p := p) (l := t), List.mem_append] at h
  refine h.resolve_left fun hm => ?_
  rw [List.mem_takeWhile_imp hm] at hc
  cases hc

theorem mem_trim {c : Char} {t : Text} (hc : isBlank c = false) (h : c ∈ t) : c ∈ trim t := by
  rw [trim, trimEnd_eq_rdropWhile, List.rdropWhile, List.mem_reverse]
  exact mem_dropWhile hc (List.mem_reverse.2 (mem_dropWhile hc h))

/-- The pieces of a text have its characters. -/
theorem subset_of_mem_splitOn {d : Char} {p t : Text} (h : p ∈ t.splitOn d) : p ⊆ t := by
  have hparts : ∀ ls : List Text, p ∈ ls → p ⊆ [d].intercalate ls := by
    intro ls
    induction ls with
    | nil => exact fun hp => absurd hp List.not_mem_nil
    | cons l ls ih =>
      intro hp
      cases ls with
      | nil =>
        obtain rfl := List.mem_singleton.1 hp
        simp
      | cons l' ls =>
        rw [List.intercalate_cons_cons]
        rcases List.mem_cons.1 hp with rfl | hp
        · exact List.subset_append_of_subset_left _ (List.subset_append_left _ _)
        · exact List.subset_append_of_subset_right _ (ih hp)
  have hp := hparts _ h
  rwa [List.intercalate_splitOn] at hp

theorem notMem_of_mem_splitOn {d : Char} {p t : Text} (h : p ∈ t.splitOn d) : d ∉ p := by
  induction t generalizing p with
  | nil =>
    obtain rfl := List.mem_singleton.1 h
    exact List.not_mem_nil
  | cons c t ih =>
    rw [List.splitOn_cons_eq_if_modifyHead] at h
    obtain ⟨q, qs, hq⟩ := List.exists_cons_of_ne_nil (List.splitOn_ne_nil d t)
    rw [hq] at h ih
    split at h
    · rcases List.mem_cons.1 h with rfl | h
      · exact List.not_mem_nil
      · exact ih h
    · next hc =>
      rcases List.mem_cons.1 h with rfl | h
      · have hne : d ≠ c := fun he => hc (beq_iff_eq.2 he.symm)
        exact fun hm => (List.mem_cons.1 hm).elim hne (ih (List.mem_cons_self ..))
      · exact ih (List.mem_cons_of_mem _ h)

theorem notMem_intercalate {c : Char} {sep : Text} {ts : List Text} (hsep : c ∉ sep)
    (h : ∀ t ∈ ts, c ∉ t) : c ∉ sep.intercalate ts := by
  induction ts with
  | nil => exact List.not_mem_nil
  | cons t ts ih =>
    obtain ⟨ht, hts⟩ := List.forall_mem_cons.1 h
    cases ts with
    | nil => simpa using ht
    | cons t' ts =>
      rw [List.intercalate_cons_cons, List.mem_append, List.mem_append, not_or, not_or]
      exact ⟨⟨ht, hsep⟩, ih hts⟩

end Wcl.Text
