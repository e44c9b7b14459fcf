import Wcl.Proofs.Markup.Include
import Wcl.Proofs.Markup.NestedFiles
import Wcl.Proofs.Template.ActiveNames
import Wcl.Proofs.Template.Recorded

/-!
# The path of an include

A path goes through two readers of the dollar sign before the file is opened.
The environment knows a name behind it, with or without braces
(`Environment.Expanded` says what a path is expanded to, `Environment.expanded_iff`
that it is what `expandVariables` gives).  But templates are resolved first, and
for them a name in braces is a variable that must be there.

So a path without tokens opens the file that it is expanded to, and a name in
braces that is not found is never looked up in the environment: no file is opened
(`Reader.step_includeFile_expands`).
-/

namespace Wcl

namespace Environment

/-! ### References to the environment -/

/-- What can stand behind the first character of a name. -/
def inName (c : Char) : Bool := beginsName c || c.isDigit

/-- The name of a variable: a letter or an underscore, then letters, underscores
and digits. -/
def IsName : Text → Prop
  | [] => False
  | c :: r => beginsName c = true ∧ ∀ d ∈ r, inName d = true

instance : DecidablePred IsName
  | [] => .isFalse id
  | c :: r =>
    haveI := List.decidableBAll (inName · = true) r
    inferInstanceAs (Decidable (beginsName c = true ∧ _))

/-- What the references in a path are expanded to: to the value of the variable
if it is set, and to themselves if it is not. -/
inductive Expanded (env : Environment) : (path expanded : Text) → Prop
  | nil : Expanded env [] []
  | char {c : Char} {r p : Text} : c ≠ '$' → Expanded env r p → Expanded env (c :: r) (c :: p)
  /-- The name goes on as far as it can. -/
  | bare {name r p : Text} : IsName name → (∀ d ∈ r.head?, inName d = false) → Expanded env r p →
    Expanded env ('$' :: (name ++ r)) ((env name).getD ('$' :: name) ++ p)
  | braced {name r p : Text} : IsName name → Expanded env r p →
    Expanded env (Context.reference name ++ r) ((env name).getD (Context.reference name) ++ p)
  /-- A dollar sign in front of neither. -/
  | dollar {r p : Text} : (∀ c ∈ r.head?, beginsName c = false) →
    (∀ name rest, IsName name → r ≠ '{' :: (name ++ '}' :: rest)) → Expanded env r p →
    Expanded env ('$' :: r) ('$' :: p)

variable {env : Environment} {name r rest path p : Text} {size : Nat}

theorem IsName.exists_cons (h : IsName name) :
    ∃ c w, name = c :: w ∧ beginsName c = true ∧ ∀ d ∈ w, inName d = true := by
  cases name with
  | nil => exact h.elim
  | cons c w => exact ⟨c, w, rfl, h⟩

theorem IsName.inName (h : IsName name) : ∀ d ∈ name, inName d = true := by
  obtain ⟨c, w, rfl, hc, hw⟩ := h.exists_cons
  intro d hd
  rcases List.mem_cons.1 hd with rfl | hd
  · simp [Environment.inName, hc]
  · exact hw d hd

theorem IsName.notMem (h : IsName name) {c : Char} (hc : Environment.inName c = false) :
    c ∉ name := by
  intro hm
  rw [h.inName c hm] at hc
  cases hc

theorem IsName.isToken_reference (h : IsName name) :
    IsToken (.form .required) ⟨Context.reference name, name⟩ := by
  refine Context.isToken_reference ?_ (h.notMem rfl) (h.notMem rfl)
  rintro rfl
  exact h

theorem IsName.nameIn (h : IsName name) : Token.nameIn name = name := by
  rw [Token.nameIn, Text.cutAt_of_notMem (h.notMem rfl)]

/-- The longest name at the start of a text. -/
theorem nameAt_append (h : IsName name) (hr : ∀ d ∈ r.head?, inName d = false) :
    nameAt (name ++ r) = name := by
  obtain ⟨c, w, rfl, hc, hw⟩ := h.exists_cons
  have hstop : r.takeWhile inName = [] := by
    cases r with
    | nil => rfl
    | cons d r => simp [hr d rfl]
  show nameAt (c :: (w ++ r)) = c :: w
  rw [nameAt, if_pos hc]
  show c :: (w ++ r).takeWhile inName = c :: w
  rw [List.takeWhile_append_of_pos hw, hstop, List.append_nil]

theorem exists_of_nameAt (h : nameAt r ≠ []) :
    IsName (nameAt r) ∧ ∃ rest, r = nameAt r ++ rest ∧ ∀ d ∈ rest.head?, inName d = false := by
  cases r with
  | nil => exact absurd rfl h
  | cons c r =>
    by_cases hc : beginsName c = true
    · have hname : nameAt (c :: r) = c :: r.takeWhile inName := by
        rw [nameAt, if_pos hc]
        rfl
      rw [hname]
      refine ⟨⟨hc, fun d hd => List.mem_takeWhile_imp hd⟩, r.dropWhile inName, ?_, ?_⟩
      · rw [List.cons_append, List.takeWhile_append_dropWhile]
      · intro d hd
        have hnot := List.head?_dropWhile_not inName r
        rw [Option.mem_def.1 hd] at hnot
        simpa using hnot
    · rw [nameAt, if_neg hc] at h
      exact absurd rfl h

theorem reference?_bare (h : IsName name) (hr : ∀ d ∈ r.head?, inName d = false) :
    reference? (name ++ r) = some (name, name.length) := by
  have hname := nameAt_append h hr
  obtain ⟨c, w, rfl, hc, _⟩ := h.exists_cons
  have hbrace : ∀ r', (c :: w) ++ r = '{' :: r' → False := by
    intro r' he
    obtain ⟨rfl, _⟩ := List.cons.inj he
    cases hc
  rw [reference?, hname]
  · rfl
  · exact hbrace

theorem reference?_braced (h : IsName name) (r : Text) :
    reference? ('{' :: (name ++ '}' :: r)) = some (name, name.length + 2) := by
  have hname : nameAt (name ++ '}' :: r) = name := by
    refine nameAt_append h fun d hd => ?_
    obtain rfl : '}' = d := Option.some.inj hd
    decide
  have hdrop : (name ++ '}' :: r).drop name.length = '}' :: r := List.drop_left
  obtain ⟨c, w, rfl, _⟩ := h.exists_cons
  simp only [reference?, hname, hdrop]
  rfl

/-- There are no other references. -/
theorem exists_of_reference? (h : reference? r = some (name, size)) : IsName name ∧
    ((size = name.length ∧ ∃ rest, r = name ++ rest ∧ ∀ d ∈ rest.head?, inName d = false) ∨
      (size = name.length + 2 ∧ ∃ rest, r = '{' :: (name ++ '}' :: rest))) := by
  unfold reference? at h
  split at h
  · next r =>
    dsimp only at h
    split at h
    · cases h
    · next hne =>
      obtain ⟨hname, rest, hr, _⟩ := exists_of_nameAt (mt List.isEmpty_iff.2 hne)
      split at h
      · next rest' hdrop =>
        cases h
        refine ⟨hname, .inr ⟨rfl, rest', ?_⟩⟩
        rw [← hdrop, List.prefix_iff_eq_append.1 ⟨rest, hr.symm⟩]
      · cases h
  · dsimp only at h
    split at h
    · cases h
    · next hne =>
      cases h
      obtain ⟨hname, hrest⟩ := exists_of_nameAt (mt List.isEmpty_iff.2 hne)
      exact ⟨hname, .inl ⟨rfl, hrest⟩⟩

/-- A dollar sign alone. -/
theorem reference?_eq_none_iff : reference? r = none ↔
    (∀ c ∈ r.head?, beginsName c = false) ∧
      ∀ name rest, IsName name → r ≠ '{' :: (name ++ '}' :: rest) := by
  constructor
  · intro h
    refine ⟨fun c hc => ?_, ?_⟩
    · cases hbegins : beginsName c with
      | false => rfl
      | true =>
        obtain ⟨w, rfl⟩ := List.head?_eq_some_iff.1 (Option.mem_def.1 hc)
        have hname : nameAt (c :: w) ≠ [] := by simp [nameAt, hbegins]
        obtain ⟨hname, rest, hr, hrest⟩ := exists_of_nameAt hname
        rw [hr, reference?_bare hname hrest] at h
        cases h
    · rintro name rest hname rfl
      rw [reference?_braced hname] at h
      cases h
  · rintro ⟨hbare, hbraced⟩
    cases h : reference? r with
    | none => rfl
    | some found =>
      obtain ⟨name, size⟩ := found
      obtain ⟨hname, ⟨_, rest, rfl, _⟩ | ⟨_, rest, rfl⟩⟩ := exists_of_reference? h
      · obtain ⟨c, w, rfl, hc, _⟩ := hname.exists_cons
        rw [hbare c rfl] at hc
        cases hc
      · exact absurd rfl (hbraced name rest hname)

/-! ### Expanding a path -/

theorem expandHome_of_head? (h : path.head? ≠ some '~') : env.expandHome path = path := by
  unfold expandHome
  split
  · exact absurd rfl h
  · rfl

theorem reference_append (name r : Text) :
    Context.reference name ++ r = '$' :: '{' :: (name ++ '}' :: r) := by
  simp [Context.reference]

theorem expandFrom_eq_drop (env : Environment) (skip : Nat) (t : Text) :
    env.expandFrom skip t = env.expandFrom 0 (t.drop skip) := by
  induction skip generalizing t with
  | zero => rfl
  | succ skip ih =>
    cases t with
    | nil => rfl
    | cons c r => exact ih r

theorem expandVariables_reference (h : reference? r = some (name, size)) :
    env.expandVariables ('$' :: r) =
      (env name).getD ('$' :: r.take size) ++ env.expandVariables (r.drop size) := by
  rw [expandVariables, expandFrom, if_pos rfl, h]
  show _ ++ expandFrom env size r = _
  rw [expandFrom_eq_drop]
  rfl

theorem Expanded.expandVariables_eq (h : Expanded env path p) : env.expandVariables path = p := by
  induction h with
  | nil => rfl
  | char hc _ ih =>
    rw [expandVariables, expandFrom, if_neg hc]
    exact congrArg _ ih
  | bare hname hr _ ih =>
    rw [expandVariables_reference (reference?_bare hname hr), List.take_left, List.drop_left, ih]
  | @braced name r p hname _ ih =>
    have htake : '$' :: ('{' :: (name ++ '}' :: r)).take (name.length + 2) =
        Context.reference name := by
      simp [Context.reference, List.take_append]
    have hdrop : ('{' :: (name ++ '}' :: r)).drop (name.length + 2) = r := by
      simp [List.drop_append]
    rw [reference_append, expandVariables_reference (reference?_braced hname r), htake, hdrop, ih]
  | dollar hbare hbraced _ ih =>
    rw [expandVariables, expandFrom, if_pos rfl, reference?_eq_none_iff.2 ⟨hbare, hbraced⟩]
    exact congrArg _ ih

/-- Every path is expanded to something. -/
theorem exists_expanded (env : Environment) (path : Text) : ∃ p, Expanded env path p := by
  induction hn : path.length using Nat.strongRecOn generalizing path with
  | ind n ih =>
    subst hn
    cases path with
    | nil => exact ⟨[], .nil⟩
    | cons c r =>
      by_cases hc : c = '$'
      · subst hc
        cases href : reference? r with
        | none =>
          obtain ⟨hbare, hbraced⟩ := reference?_eq_none_iff.1 href
          obtain ⟨p, hp⟩ := ih _ (Nat.lt_succ_self _) r rfl
          exact ⟨_, .dollar hbare hbraced hp⟩
        | some found =>
          obtain ⟨name, size⟩ := found
          obtain ⟨hname, ⟨_, rest, rfl, hrest⟩ | ⟨_, rest, rfl⟩⟩ := exists_of_reference? href
          · have hlt : rest.length < ('$' :: (name ++ rest)).length := by
              rw [List.length_cons, List.length_append]
              omega
            obtain ⟨p, hp⟩ := ih _ hlt rest rfl
            exact ⟨_, .bare hname hrest hp⟩
          · rw [← reference_append] at ih ⊢
            have hlt : rest.length < (Context.reference name ++ rest).length := by
              rw [reference_append, List.length_cons, List.length_cons, List.length_append,
                List.length_cons]
              omega
            obtain ⟨p, hp⟩ := ih _ hlt rest rfl
            exact ⟨_, .braced hname hp⟩
      · obtain ⟨p, hp⟩ := ih _ (Nat.lt_succ_self _) r rfl
        exact ⟨_, .char hc hp⟩

/-- **A path is expanded to one text**, the one that `expandVariables` gives. -/
theorem expanded_iff : Expanded env path p ↔ env.expandVariables path = p := by
  constructor
  · exact Expanded.expandVariables_eq
  · rintro rfl
    obtain ⟨p, hp⟩ := exists_expanded env path
    rwa [hp.expandVariables_eq]

end Environment

/-! ### The files that are opened -/

/-- The files that are opened, in order. -/
def Log.openedFiles (log : Log) : List Text :=
  log.filterMap fun
    | .opened _ _ path => some path
    | _ => none

theorem Log.openedFiles_append (log log' : Log) :
    Log.openedFiles (log ++ log') = Log.openedFiles log ++ Log.openedFiles log' :=
  List.filterMap_append

theorem Log.openedFiles_of_messages {log : Log}
    (h : ∀ e ∈ log, ∃ level text, e = .message level text) : Log.openedFiles log = [] := by
  rw [openedFiles, List.filterMap_eq_nil_iff]
  intro e he
  obtain ⟨level, text, rfl⟩ := h e he
  rfl

namespace Traced

variable {α β : Type} {x : Traced α} {f : α → Traced β} {a : α} {e : Error}

theorem log_bind_of_ok (h : x.result = .ok a) : (x >>= f).log = x.log ++ (f a).log := by
  rw [log_bind, h]

theorem log_bind_of_error (h : x.result = .error e) : (x >>= f).log = x.log := by
  rw [log_bind, h, List.append_nil]

theorem openedFiles_bind (hx : Log.openedFiles x.log = [])
    (hf : ∀ a, x.result = .ok a → Log.openedFiles (f a).log = []) :
    Log.openedFiles (x >>= f).log = [] := by
  cases h : x.result with
  | ok a => rw [log_bind_of_ok h, Log.openedFiles_append, hx, hf a h, List.append_nil]
  | error e => rw [log_bind_of_error h, hx]

/-- What goes on behind it does not change which file is opened first. -/
theorem head?_openedFiles_bind {path : Text} (h : (Log.openedFiles x.log).head? = some path) :
    (Log.openedFiles (x >>= f).log).head? = some path := by
  cases hresult : x.result with
  | ok a =>
    rw [log_bind_of_ok hresult, Log.openedFiles_append, List.head?_append, h, Option.some_or]
  | error e => rw [log_bind_of_error hresult, h]

end Traced

namespace Context

variable {c : Context} {t : Text} {token : Token}

theorem compatible_unopened (template : Text) :
    Traced.Compatible (fun x _ => Log.openedFiles x.log = []) template template where
  quiet h := Log.openedFiles_of_messages h
  bind := Traced.openedFiles_bind
  endless := rfl

/-- Resolving a template opens no file. -/
theorem openedFiles_resolveIn (c : Context) (depth : Nat) (active : List Text) (template : Text) :
    Log.openedFiles (c.resolveIn depth active template).log = [] := by
  induction depth generalizing active template with
  | zero => rfl
  | succ depth ih =>
    rw [resolveIn_succ]
    refine (compatible_unopened template).resolveWith_self fun name value _ => ?_
    by_cases hname : name ∈ active
    · rw [valueIn_of_mem hname]
      rfl
    · rw [valueIn_of_notMem hname]
      show Log.openedFiles ([Event.entered name] ++ _ ++ [Event.left name]) = []
      rw [Log.openedFiles_append, Log.openedFiles_append, Traced.log_bind_ofExcept,
        ih (name :: active) value]
      rfl

theorem openedFiles_resolveSingle (c : Context) (template : Text) :
    Log.openedFiles (c.resolveSingle template).log = [] := by
  rw [resolveSingle, Traced.log_bind_ofExcept]
  exact c.openedFiles_resolveIn _ _ template

/-! ### Variables that must be there -/

theorem result_replacement?_of_missing {inner : (name value : Text) → Traced Text} {body : Text}
    (hfind : c.document.find? c.scope (Token.nameIn body) = none) :
    (c.replacement? inner .required body).result = .ok none := by
  show (c.variableValue? inner body).result = .ok none
  unfold variableValue?
  dsimp only
  rw [hfind]
  rfl

/-- A template with a variable that must be there and is not found does not
resolve, whatever else is in it. -/
theorem resolveSingle_ne_ok_of_missing (htoken : IsToken (.form .required) token)
    (hin : token.spelling <:+: t)
    (hfind : c.document.find? c.scope (Token.nameIn token.body) = none) (s : Text) :
    (c.resolveSingle t).result ≠ .ok s := by
  intro h
  obtain ⟨_, hall, _⟩ := resolveSingle_eq_ok_iff.1 h
  obtain ⟨settled, hsettled, _⟩ := Traced.bind_eq_ok.1 hall
  obtain ⟨_, hturns⟩ := turns_of_untilStable hsettled
  -- Nothing is ever put for the token, so it is there where variables have settled.
  have hstays : token.spelling <:+: settled.text := by
    refine Exchanged.keeps hturns.exchanged htoken.isSpelling ?_ hin
    intro form _ token' v htoken' hputs he
    obtain ⟨huse, rfl⟩ := htoken.unique htoken' he
    obtain rfl := Use.form.inj huse
    cases hputs with
    | found hrep =>
      rw [result_replacement?_of_missing hfind] at hrep
      cases hrep
    | missing hform _ => cases hform
  obtain ⟨_, hlacks, _⟩ := lacks_of_turn hturns.result_turn
  exact htoken.first?_ne_none hstays (hlacks .required (by decide))

/-- If it is the first token that a look-up is made for, it is what the error names. -/
theorem resolveSingle_of_missing (hlacks : Lacks [.header, .optional] t)
    (hfirst : Token.first? Form.required.kind t = some token)
    (hfind : c.document.find? c.scope (Token.nameIn token.body) = none) :
    (c.resolveSingle t).result = .error (.missingKey (Token.nameIn token.body)) := by
  have hpass : ∀ inner, (c.substitute inner t .required turnLimit ⟨t, []⟩).result =
      .error (.missingKey (Token.nameIn token.body)) := by
    intro inner
    unfold substitute
    rw [hfirst]
    show (c.replacement? inner .required token.body >>= _).result = _
    rw [Traced.result_bind, result_replacement?_of_missing hfind]
    rfl
  have hturn : ∀ inner, (c.turn inner t [.header, .optional, .required] ⟨t, []⟩).result =
      .error (.missingKey (Token.nameIn token.body)) := by
    intro inner
    rw [result_turn_cons_of_none (hlacks .header (by decide)),
      result_turn_cons_of_none (hlacks .optional (by decide)), result_turn_singleton]
    exact hpass inner
  refine Traced.bind_eq_error ?_
  rw [resolve_eq, resolveWith, Traced.result_bind]
  exact Traced.bind_eq_error (Traced.bind_eq_error (Traced.bind_eq_error (hturn _)))

end Context

namespace Reader

variable {r : Reader} {source : Text} {left number : Nat} {s : Sections} {raw path : Text}
  {line : Text} {e : Error}

/-! ### An include line -/

theorem find?_eq_none_of_search {d : Document} {name : Text}
    (h : d.search {} false name = .ok none) : d.find? {} name = none := by
  rw [Document.search_optional] at h
  exact Except.ok.inj h

/-- What including the file at a path makes of the sections, where includes in it
may go `left` files deep. -/
def included (r : Reader) (left : Nat) (s : Sections) (path : Text) : Except Error Sections := do
  let file ← (r.host.read path).mapError (.badFile path)
  let d ← (r.readSource left path s.keepsCase file).result
  return { s with root := s.root.update d }

theorem openedFiles_includePath (r : Reader) (source : Text) (number : Nat) (root : Document)
    (raw : Text) : Log.openedFiles (r.includePath source number root raw).log = [] := by
  rw [includePath]
  exact Traced.openedFiles_bind (Context.openedFiles_resolveSingle _ raw) fun _ _ => rfl

theorem result_includePath_of_error {root : Document}
    (h : ((r.context root).resolveSingle raw).result = .error e) :
    (r.includePath source number root raw).result = .error e := by
  rw [result_includePath_eq, includedPath, h]
  rfl

/-- A path that comes out is opened first of all. -/
theorem step_includeFile (left : Nat) (hline : Statement.ofLine line = .includeFile raw)
    (hpath : (r.includePath source number s.root raw).result = .ok path) :
    (Log.openedFiles (r.step (r.loadWithin source (left + 1)) source number
        (Statement.ofLine line) s).log).head? = some path ∧
      (r.step (r.loadWithin source (left + 1)) source number (Statement.ofLine line) s).result =
        r.included left s path := by
  rw [hline, step, loadWithin]
  refine ⟨?_, ?_⟩
  · refine Traced.head?_openedFiles_bind ?_
    rw [Traced.log_bind_of_ok hpath, Log.openedFiles_append, openedFiles_includePath,
      List.nil_append]
    exact Traced.head?_openedFiles_bind rfl
  · rw [Traced.result_bind, Traced.result_bind, hpath]
    show ((r.openFile _ s.keepsCase path >>= _).result >>= _) = _
    rw [Traced.result_bind]
    exact bind_assoc _ _ _

/-- Without a path no file is opened. -/
theorem step_includeFile_of_error (left : Nat) (hline : Statement.ofLine line = .includeFile raw)
    (hpath : (r.includePath source number s.root raw).result = .error e) :
    Log.openedFiles (r.step (r.loadWithin source (left + 1)) source number
        (Statement.ofLine line) s).log = [] ∧
      (r.step (r.loadWithin source (left + 1)) source number (Statement.ofLine line) s).result =
        .error e := by
  rw [hline, step, loadWithin]
  refine ⟨?_, Traced.bind_eq_error (Traced.bind_eq_error hpath)⟩
  rw [Traced.log_bind_of_error (Traced.bind_eq_error hpath), Traced.log_bind_of_error hpath]
  exact openedFiles_includePath ..

/-- **What an include line opens.**  What its path resolves to is expanded from the
environment, and that file is opened first and read; so a path without tokens, which
resolves to itself, has every `$NAME` in it that is set replaced, and all else left
as it is written.  But `${NAME}` is a variable of the document.  If it is not found
there the include fails and opens no file, whatever the environment holds and
whatever else is in the path; the error names the first such variable, if there is
no header and no optional variable in the path. -/
theorem step_includeFile_expands (r : Reader) (source : Text) (left number : Nat) (s : Sections)
    {line raw : Text} (hline : Statement.ofLine line = .includeFile raw) :
    let x := r.step (r.loadWithin source (left + 1)) source number (Statement.ofLine line) s
    (∀ resolved, ((r.context s.root).resolveSingle raw).result = .ok resolved →
      resolved.head? ≠ some '~' → ∃ path, Environment.Expanded r.host.environment resolved path ∧
        (Log.openedFiles x.log).head? = some path ∧ x.result = r.included left s path) ∧
    (Concrete raw → ((r.context s.root).resolveSingle raw).result = .ok raw) ∧
    (∀ name, Environment.IsName name → Context.reference name <:+: raw →
      s.root.search {} false name = .ok none →
        Log.openedFiles x.log = [] ∧ ∃ e, x.result = .error e) ∧
    ∀ token, Lacks [.header, .optional] raw → Token.first? Form.required.kind raw = some token →
      s.root.search {} false (Token.nameIn token.body) = .ok none →
        x.result = .error (.missingKey (Token.nameIn token.body)) := by
  dsimp only
  refine ⟨fun resolved hresolved htilde => ?_, Context.resolveSingle_of_concrete _,
    fun name hname hin hsearch => ?_, fun token hlacks hfirst hsearch => ?_⟩
  · have hpath : (r.includePath source number s.root raw).result =
        .ok (r.host.environment.expandVariables resolved) := by
      rw [result_includePath_eq, includedPath, hresolved]
      show Except.ok (r.host.environment.expandPath resolved) = _
      rw [Environment.expandPath, Environment.expandHome_of_head? htilde]
    obtain ⟨hopened, hresult⟩ := step_includeFile left hline hpath
    exact ⟨_, Environment.expanded_iff.2 rfl, hopened, hresult⟩
  · have hnot := Context.resolveSingle_ne_ok_of_missing (c := r.context s.root)
      hname.isToken_reference hin (by rw [hname.nameIn]; exact find?_eq_none_of_search hsearch)
    cases hresolved : ((r.context s.root).resolveSingle raw).result with
    | ok path => exact absurd hresolved (hnot path)
    | error e =>
      obtain ⟨hopened, hresult⟩ :=
        step_includeFile_of_error left hline (result_includePath_of_error hresolved)
      exact ⟨hopened, e, hresult⟩
  · have hmissing := Context.resolveSingle_of_missing (c := r.context s.root) hlacks hfirst
      (find?_eq_none_of_search hsearch)
    exact (step_includeFile_of_error left hline (result_includePath_of_error hmissing)).2

/-- Two names without braces, one of them not set, and a name in both spellings. -/
theorem step_includeFile_expands_spellings :
    let r : Reader := { host := ⟨fun _ => .error .notFound,
      fun name => if name = "DIR".toList then some "d".toList else none⟩ }
    let s : Sections := ⟨.ofList [("k".toList, .scalar "v".toList)], [], false⟩
    let x := fun line => r.step (r.loadWithin "f".toList 4) "f".toList 7 (Statement.ofLine line) s
    let bare := x "<<include $DIR/$NONE.wcl>>".toList
    let both := x "<<include $DIR/$\x7bDIR\x7d>>".toList
    (Log.openedFiles bare.log).head? = some "d/$NONE.wcl".toList ∧
      bare.result = .error (.badFile "d/$NONE.wcl".toList .notFound) ∧
      Log.openedFiles both.log = [] ∧ both.result = .error (.missingKey "DIR".toList) := by
  intro r s x bare both
  have hbare : Statement.ofLine "<<include $DIR/$NONE.wcl>>".toList =
      .includeFile "$DIR/$NONE.wcl".toList := by rfl
  have hboth : Statement.ofLine "<<include $DIR/$\x7bDIR\x7d>>".toList =
      .includeFile "$DIR/$\x7bDIR\x7d".toList := by rfl
  obtain ⟨hopens, hplain, -, -⟩ := r.step_includeFile_expands "f".toList 3 7 s hbare
  obtain ⟨-, -, hfails, hmissing⟩ := r.step_includeFile_expands "f".toList 3 7 s hboth
  obtain ⟨path, hpath, hfirst, hresult⟩ := hopens _ (hplain (by decide)) (by decide)
  obtain rfl := Environment.expanded_iff.1 hpath
  have hinfix : Context.reference "DIR".toList <:+: "$DIR/$\x7bDIR\x7d".toList :=
    ⟨"$DIR/".toList, [], rfl⟩
  refine ⟨hfirst, hresult, (hfails "DIR".toList (by decide) hinfix rfl).1, ?_⟩
  exact hmissing ⟨"$\x7bDIR\x7d".toList, "DIR".toList⟩ (by decide) (by decide) rfl

/-- A name in braces that is set in the environment and names no variable of the
document, in the only line of a text. -/
theorem parseText_include_braced :
    let r : Reader := { host := ⟨fun path => if path = "d/x.wcl".toList then
      .ok (.ofText "a = 1\n".toList) else .error .notFound,
      fun name => if name = "DIR".toList then some "d".toList else none⟩ }
    let raw := "$\x7bDIR\x7d/x.wcl".toList
    let x := r.parseText (includeLine raw ++ ['\n'])
    Statement.ofText (includeLine raw ++ ['\n']) = [.includeFile raw] ∧
      Document.empty.search {} false "DIR".toList = .ok none ∧
      Environment.Expanded r.host.environment raw "d/x.wcl".toList ∧
      x.result = .error (.missingKey "DIR".toList) ∧ Log.openedFiles x.log = [] := by
  intro r raw x
  refine ⟨rfl, rfl, Environment.expanded_iff.2 rfl, rfl, rfl⟩

end Reader

end Wcl
