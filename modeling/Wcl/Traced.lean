import Wcl.Error

/-!
# Traced computations

A computation has a result or an error, and a log of what happened on the way;
the log is kept when it fails.  The log holds what is printed, the messages
besides, and three kinds of event that a statement about a run can speak of: a
variable is entered and left, a path is expanded, a file is opened.

`result_bind` and `log_bind` are all that a proof needs: on results, a traced
computation is a computation in `Except`.  `bind_eq_ok` takes a successful one
apart, `bind_congr_of_ok` goes on under a bind.
-/

namespace Wcl

/-- How important a message is. -/
inductive Level
  | debug
  | info
  | warning
  deriving DecidableEq, Repr

/-- What can happen on the way. -/
inductive Event
  | message (level : Level) (text : Text)
  /-- A part of the output. -/
  | printed (text : Text)
  /-- The value of this variable begins to be resolved by itself. -/
  | entered (name : Text)
  /-- The value of this variable is resolved, or has failed to be. -/
  | left (name : Text)
  /-- References to the environment in this path are about to be expanded. -/
  | expanding (path : Text)
  /-- This file is opened, behind so many includes; whether its keys keep their
  case from the start. -/
  | opened (depth : Nat) (keepsCase : Bool) (path : Text)
  deriving DecidableEq, Repr

/-- What happened, in order. -/
abbrev Log := List Event

namespace Log

/-- The output, all its parts together. -/
def output (log : Log) : Text :=
  log.flatMap fun
    | .printed t => t
    | _ => []

/-- The messages of one level, in order. -/
def messagesAt (level : Level) (log : Log) : List Text :=
  log.filterMap fun
    | .message l t => if l = level then some t else none
    | _ => none

end Log

/-- A result or an error, with what happened on the way. -/
structure Traced (α : Type) where
  result : Except Error α
  log : Log

namespace Traced

variable {α β : Type}

/-- A result with nothing on the way. -/
def done (a : α) : Traced α := ⟨.ok a, []⟩

/-- An error with nothing on the way. -/
def fail (e : Error) : Traced α := ⟨.error e, []⟩

/-- One event. -/
def note (e : Event) : Traced Unit := ⟨.ok (), [e]⟩

/-- A message for debugging. -/
def debug (text : Text) : Traced Unit := note (.message .debug text)

/-- A computation without a log. -/
def ofExcept (r : Except Error α) : Traced α := ⟨r, []⟩

/-- Goes on with the result; after an error there is nothing to go on with. -/
def andThen (x : Traced α) (f : α → Traced β) : Traced β :=
  match x.result with
  | .ok a => ⟨(f a).result, x.log ++ (f a).log⟩
  | .error e => ⟨.error e, x.log⟩

instance : Monad Traced where
  pure := done
  bind := andThen

/-- A computation with an event before and after it, also when it fails. -/
def between (first last : Event) (x : Traced α) : Traced α :=
  ⟨x.result, first :: x.log ++ [last]⟩

@[simp] theorem result_pure (a : α) : (pure a : Traced α).result = .ok a := rfl

@[simp] theorem log_pure (a : α) : (pure a : Traced α).log = [] := rfl

@[simp] theorem result_fail (e : Error) : (fail e : Traced α).result = .error e := rfl

@[simp] theorem result_note (e : Event) : (note e).result = .ok () := rfl

@[simp] theorem result_debug (t : Text) : (debug t).result = .ok () := rfl

@[simp] theorem result_ofExcept (r : Except Error α) : (ofExcept r).result = r := rfl

@[simp] theorem result_between (first last : Event) (x : Traced α) :
    (between first last x).result = x.result := rfl

@[simp] theorem result_bind (x : Traced α) (f : α → Traced β) :
    (x >>= f).result = x.result >>= fun a => (f a).result := by
  show (andThen x f).result = _
  cases h : x.result <;> simp [andThen, h, bind, Except.bind]

theorem bind_eq_ok {x : Traced α} {f : α → Traced β} {b : β} :
    (x >>= f).result = .ok b ↔ ∃ a, x.result = .ok a ∧ (f a).result = .ok b := by
  rw [result_bind]
  cases x.result with
  | error e => simp [bind, Except.bind]
  | ok a => simp [bind, Except.bind]

theorem log_bind (x : Traced α) (f : α → Traced β) :
    (x >>= f).log = x.log ++ match x.result with
      | .ok a => (f a).log
      | .error _ => [] := by
  show (andThen x f).log = _
  cases h : x.result <;> simp [andThen, h]

/-- What is done with a result matters only for the result there is. -/
theorem bind_congr_of_ok {x : Traced α} {f g : α → Traced β}
    (h : ∀ a, x.result = .ok a → f a = g a) : x >>= f = x >>= g := by
  show andThen x f = andThen x g
  unfold andThen
  cases hx : x.result with
  | ok a =>
    dsimp only
    rw [h a hx]
  | error e => rfl

end Traced

end Wcl
