import PhpAsync.Core.LTS
import PhpAsync.L1Runtime.Throwable

/-!
# The life of a coroutine

Model of one coroutine of coroutine.c: how it is started, suspended, resumed,
cancelled and finished, and what the calls of `await()` on it obtain.

The coroutine's body is PHP code: it may catch what it is resumed with, call
`protect()`, cancel itself, and end by returning any value or throwing any object.
Cancellations, resumptions and awaits by others come at any time it does not run.

A value is of any type `V`; `none` is `IS_UNDEF`, which `await()` turns into `null`.

Left out: `$previous` chains, the coroutine's scope and its zombie flag, finally
handlers (they run after the notification and do not touch the outcome), and the
destruction of the coroutine object, after which nobody can await it.
-/
namespace PhpAsync.L2.Coroutine

open PhpAsync.Core PhpAsync.L1

/-- mirrors Zend `ZEND_ASYNC_WAKER_*` -/
inductive Status where
  | noStatus | waiting | queued | ignored | result
  deriving DecidableEq, Repr

/-- `ZEND_ASYNC_WAKER_IN_QUEUE` -/
def Status.inQueue : Status → Bool
  | .queued => true
  | .ignored => true
  | _ => false

/-- What an `await()` ends with. -/
inductive Outcome (V : Type) where
  | value (v : Option V)
  | error (e : Err)
  deriving DecidableEq, Repr

/-- A result and an exception as a callback or a replay hands them on. -/
def outcome {V : Type} (result : Option V) : Option Err → Outcome V
  | some e => .error e
  | none => .value result

/-- `running`: the coroutine is `ZEND_ASYNC_CURRENT_COROUTINE`; `status` and `error`
are those of its waker. `awaiters` are the `await()` calls suspended on it, `got`
what the calls obtained, `left` those that gave up before it finished.
mirrors coroutine.h:45-67 -/
structure St (V : Type) where
  started : Bool
  finished : Bool
  cancelled : Bool
  guarded : Bool
  running : Bool
  exception : Option Err
  result : Option V
  deferred : Option Err
  status : Status
  error : Option Err
  awaiters : List Nat
  got : List (Nat × Outcome V)
  left : List Nat
  calls : Nat
  fresh : Nat
  deriving DecidableEq, Repr

variable {V : Type}

/-- `spawn()`: queued, not started.
mirrors async_API.c:117-170 -/
def spawn : St V where
  started := false
  finished := false
  cancelled := false
  guarded := false
  running := false
  exception := none
  result := none
  deferred := none
  status := .queued
  error := none
  awaiters := []
  got := []
  left := []
  calls := 0
  fresh := 0

/-- `async_new_exception(async_ce_cancellation_exception, "Coroutine cancelled")` -/
def newCancellation (s : St V) : Err := ⟨.made s.fresh, .cancellation⟩

/-- mirrors scheduler.c:1430-1513 -/
def enqueue (s : St V) : St V :=
  if s.status.inQueue then s else { s with status := .queued }

/-- The branches of `async_coroutine_cancel` for a coroutine that does not run and is
not protected.
mirrors coroutine.c:945-998 -/
def cancelSuspended (s : St V) (error : Err) (safely : Bool) : St V :=
  if s.started = false then
    { s with cancelled := true, status := .ignored, error := applyCancellation s.error error }
  else if safely then { s with cancelled := true }
  else if s.cancelled && s.error.any Err.isCancellation then enqueue { s with cancelled := true }
  else enqueue { s with cancelled := true, error := applyCancellation s.error error }

/-- mirrors coroutine.c:916-943 -/
def cancelOther (s : St V) (error : Err) (safely : Bool) : St V :=
  if s.guarded then { s with deferred := s.deferred.or (some error) }
  else cancelSuspended s error safely

/-- `async_coroutine_cancel`. A coroutine that runs only stores the exception.
mirrors coroutine.c:866-999 -/
def cancel (s : St V) (error : Option Err) (safely : Bool) : St V :=
  if s.finished then s
  else if s.running && decide (s.status ≠ .waiting) then
    match s.exception, error with
    | some _, _ => { s with cancelled := true }
    | none, some e => { s with cancelled := true, exception := some e }
    | none, none =>
      { s with cancelled := true, exception := some (newCancellation s), fresh := s.fresh + 1 }
  else
    match error with
    | some e => cancelOther s e safely
    | none => cancelOther { s with fresh := s.fresh + 1 } (newCancellation s) safely

/-- One coroutine in `cancel_queued_coroutines`: a coroutine that has not started gets
the cancellation as its exception, protection no longer applies to the others.
mirrors scheduler.c:912-933 -/
def shutdown (s : St V) (cancellation : Err) : St V :=
  if s.started = false then
    { s with status := .ignored, cancelled := true, exception := some cancellation }
  else cancel { s with guarded := false } (some cancellation) false

/-- What the exception pending at the end and the stored one become: the exception the
callbacks are notified with, and the one that stays stored.
mirrors coroutine.c:624-658 -/
def settle (thrown stored : Option Err) : Option Err × Option Err :=
  match thrown.filter (fun e => !e.isExit), stored with
  | some e, some c => if e.isCancellation then (some e, some c) else (some e, some e)
  | some e, none => (some e, some e)
  | none, stored => (stored, stored)

/-- `async_coroutine_finalize` up to the notification, with the waker destroyed.
mirrors coroutine.c:591-679 -/
def finalize (s : St V) (thrown : Option Err) : St V :=
  { s with
    finished := true
    running := false
    exception := (settle thrown s.exception).2
    status := .noStatus
    error := none
    awaiters := []
    got := s.got ++ s.awaiters.map fun a => (a, outcome s.result (settle thrown s.exception).1) }

/-- The scheduler takes a coroutine that has not started. An error of its waker is
thrown before the body is called, which then does not run.
mirrors coroutine.c:443-525 -/
def execute (s : St V) : Option (St V) :=
  if s.started || s.finished then none
  else
    match s.status with
    | .ignored =>
      if s.cancelled then some (finalize { s with error := none } s.error) else none
    | .queued =>
      match s.error with
      | some e => some (finalize { s with started := true, error := none } (some e))
      | none => some { s with started := true, running := true, status := .result }
    | _ => none

/-- How the body ends. -/
inductive Ending (V : Type) where
  | returns (v : V)
  | throws (e : Err)
  deriving DecidableEq, Repr

/-- mirrors coroutine.c:498-532 -/
def finish (s : St V) : Ending V → St V
  | .returns v => finalize { s with result := some v } none
  | .throws e => finalize s (some e)

/-- `coroutine_replay`, with a callback or for `await()`.
mirrors coroutine.c:1035-1065 -/
def replay (s : St V) : Option (Outcome V) :=
  if s.finished then some (outcome s.result s.exception) else none

/-- `Async\await()` by another coroutine, without a cancellation token.
mirrors async.c:296-380 -/
def await (s : St V) : St V :=
  match replay s with
  | some o => { s with calls := s.calls + 1, got := s.got ++ [(s.calls, o)] }
  | none => { s with calls := s.calls + 1, awaiters := s.awaiters ++ [s.calls] }

/-- mirrors coroutine.c:795-864 -/
def resume (s : St V) (error : Option Err) : St V :=
  enqueue { s with error := mergeError s.error error }

inductive Lbl (V : Type) where
  | execute
  /-- the body suspends, waiting for something -/
  | suspend
  /-- `suspend()`: the body gives way and stays in the queue -/
  | yield
  | resume (error : Option Err)
  /-- the scheduler returns to the body, which sees the error of the waker -/
  | switchIn
  | protect
  | unprotect
  | cancel (error : Option Err) (safely : Bool)
  | shutdown (cancellation : Err)
  | finish (e : Ending V)
  | await
  /-- an `await()` call is cancelled or times out -/
  | leave (call : Nat)
  deriving DecidableEq, Repr

/-- The transitions. What the body does, it does while it runs. -/
def step (s : St V) : Lbl V → Option (St V)
  | .execute => execute s
  | .suspend =>
    if s.running then some { s with running := false, status := .waiting, error := none } else none
  | .yield => if s.running then some { s with running := false, status := .queued } else none
  | .resume error => if s.status = .waiting ∨ s.status = .queued then some (resume s error) else none
  | .switchIn =>
    if s.started ∧ s.finished = false ∧ s.status = .queued then
      some { s with running := true, status := .result, error := none }
    else none
  | .protect => if s.running then some { s with guarded := true } else none
  | .unprotect =>
    if s.running then
      some { s with guarded := false, cancelled := s.cancelled || s.deferred.isSome, deferred := none }
    else none
  | .cancel error safely => some (cancel s error safely)
  | .shutdown cancellation => if s.finished then none else some (shutdown s cancellation)
  | .finish e => if s.running then some (finish s e) else none
  | .await => some (await s)
  | .leave call =>
    if call ∈ s.awaiters then
      some { s with awaiters := s.awaiters.erase call, left := s.left ++ [call] }
    else none

def Init (s : St V) : Prop := s = spawn

def lts (V : Type) : LTS (St V) (Lbl V) := LTS.ofFn Init step

end PhpAsync.L2.Coroutine
