import PhpAsync.Core.LTS
import PhpAsync.L1Runtime.CircularBuffer

/-!
# `Async\ThreadChannel`: the code

Model of thread_channel.c. A channel is a buffer of at most `capacity` values shared by
threads, with one table of triggers of waiting senders and one of waiting receivers.
A call is a coroutine inside `thread_channel_send_ex` or `thread_channel_receive`. What
the code does between a lock and its unlock is one step; registration, suspension,
waking up and the next attempt are steps of their own, between which any other call may
take its steps.

A trigger belongs to a call: `listed` says that it is in the channel's table,
`signalled` that it was fired and its loop has not delivered it yet (it stays
signalled until then, also if the coroutine has not suspended when it fires). The
cancellation event of a call is closed by its own loop, which does not run while the
call does.

A value carries the number of the call that sent it. `pushed` and `popped` list the
values that went through the buffer; the code does not read them.

Left out: the transfer of a value to persistent memory and back, reference counts,
`thread_channel_destroy` (nobody is in a call then).
-/
namespace PhpAsync.L2.ThreadChannel

open PhpAsync.Core PhpAsync.L1

inductive Kind (V : Type) where
  | send (v : V)
  | receive
  /-- `thread_channel_receive` with `result == NULL` -/
  | waitOnly
  deriving DecidableEq, Repr

inductive Result where
  | ok
  | refused
  | bailed
  deriving DecidableEq, Repr

/-- Where a call is; the lock is not held in any of these. -/
inductive Phase where
  /-- at `retry` -/
  | attempt
  /-- in the table, not suspended yet -/
  | registered
  /-- the cancellation event was closed already -/
  | quitting
  | parked
  /-- woken up, with an exception or without -/
  | resumed (thrown : Bool)
  /-- a receiver whose cancellation event has fired looks again -/
  | recheck
  | done (r : Result)
  deriving DecidableEq, Repr

/-- `cancellation`: the event, if there is one, and whether it is closed. -/
structure Call (V : Type) where
  kind : Kind V
  phase : Phase
  listed : Bool
  signalled : Bool
  cancellation : Option Bool
  deriving DecidableEq, Repr

/-- mirrors src/thread_channel.h:29-55 -/
structure St (V : Type) where
  buffer : List (Nat × V)
  closed : Bool
  calls : List (Call V)
  pushed : List (Nat × V)
  popped : List (Nat × V)
  deriving DecidableEq, Repr

variable {V : Type}

/-- The capacities the constructor accepts.
mirrors src/thread_channel.c:553-556 -/
def construct (capacity : Int) : Except String Nat :=
  if capacity < 1 ∨ 2147483647 < capacity then .error "must be between 1 and 2147483647" else .ok capacity.toNat

/-- The ring that `async_thread_channel_create` makes: the slot for the sentinel is added in
`int32_t`, which wraps, and the sum is extended to `size_t`.
mirrors src/thread_channel.c:386 -/
def ring (capacity : Nat) : Option Nat :=
  let n := (capacity + 1) % 2 ^ 32
  CircularBuffer.slots (if n < 2 ^ 31 then n else n + (2 ^ 64 - 2 ^ 32))

/-- mirrors src/thread_channel.c:376-401 -/
def start : St V := ⟨[], false, [], [], []⟩

def Kind.isSender : Kind V → Bool
  | .send _ => true
  | _ => false

/-- The trigger of a call is fired if it is in the table of the senders, or of the receivers. -/
def fire (senders : Bool) (p : Call V) : Call V :=
  if p.listed && p.kind.isSender == senders then { p with signalled := true } else p

/-- mirrors src/thread_channel.c:63-69 -/
def fireAllTriggers (senders : Bool) (s : St V) : St V := { s with calls := s.calls.map (fire senders) }

/-- `circular_buffer_push` without resizing, whose result is not looked at.
mirrors src/thread_channel.c:139 -/
def push (capacity : Nat) (s : St V) (m : Nat × V) : St V :=
  if CircularBuffer.isFull (ring capacity) s.buffer.length then s
  else { s with buffer := s.buffer ++ [m], pushed := s.pushed ++ [m] }

def register (s : St V) (i : Nat) (p : Call V) : St V :=
  { s with calls := s.calls.set i { p with listed := true, phase := .registered } }

def finish (s : St V) (i : Nat) (p : Call V) (r : Result) : St V :=
  { s with calls := s.calls.set i { p with phase := .done r } }

/-- The first lock of `thread_channel_send_ex`.
mirrors src/thread_channel.c:123-152 -/
def attemptSend (capacity : Nat) (s : St V) (i : Nat) (p : Call V) (v : V) : St V :=
  if s.closed then finish s i p .refused
  else if s.buffer.length < capacity then
    finish (fireAllTriggers false (push capacity s (i, v))) i p .ok
  else register s i p

/-- The first lock of `thread_channel_receive`.
mirrors src/thread_channel.c:234-274 -/
def attemptReceive (s : St V) (i : Nat) (p : Call V) (waitOnly : Bool) : St V :=
  match waitOnly, s.buffer with
  | false, m :: rest =>
    finish (fireAllTriggers true { s with buffer := rest, popped := s.popped ++ [m] }) i p .ok
  | _, _ => if s.closed then finish s i p .refused else register s i p

def attempt (capacity : Nat) (s : St V) (i : Nat) (p : Call V) : St V :=
  match p.kind with
  | .send v => attemptSend capacity s i p v
  | .receive => attemptReceive s i p false
  | .waitOnly => attemptReceive s i p true

/-- After the wake-up: out of the table, and on with what was seen under the lock.
mirrors src/thread_channel.c:194-219, 312-347 -/
def wake (capacity : Nat) (s : St V) (p : Call V) (thrown : Bool) : Phase :=
  if thrown then .done .refused
  else match p.kind with
    | .send _ =>
      if p.cancellation = some true ∧ s.closed = false ∧ capacity ≤ s.buffer.length then .done .refused
      else .attempt
    | .receive => if p.cancellation = some true ∧ s.closed = false then .recheck else .attempt
    | .waitOnly => .done (if s.closed then .refused else .ok)

inductive Event where
  /-- the call subscribes and suspends, unless its cancellation event is closed -/
  | suspend
  | quit
  /-- the loop delivers the trigger -/
  | deliver
  /-- the cancellation event fires -/
  | cancel
  /-- the coroutine is cancelled -/
  | throw
  /-- a bailout through the suspension -/
  | bail
  | wake
  | recheck
  deriving DecidableEq, Repr

/-- The steps of a call that change nothing but the call.
mirrors src/thread_channel.c:154-219, 276-347 -/
def own (capacity : Nat) (s : St V) (p : Call V) : Event → Option (Call V)
  | .suspend => match p.phase with
    | .registered => some { p with phase := if p.cancellation = some true then .quitting else .parked }
    | _ => none
  | .quit => match p.phase with
    | .quitting => some { p with listed := false, phase := .done .refused }
    | _ => none
  | .deliver => match p.phase, p.signalled with
    | .parked, true => some { p with signalled := false, phase := .resumed false }
    | .resumed thrown, true => some { p with signalled := false, phase := .resumed thrown }
    | _, _ => none
  | .cancel => match p.phase, p.cancellation with
    | .parked, some false => some { p with cancellation := some true, phase := .resumed false }
    | .resumed thrown, some false => some { p with cancellation := some true, phase := .resumed thrown }
    | _, _ => none
  | .throw => match p.phase with
    | .parked => some { p with phase := .resumed true }
    | .resumed _ => some { p with phase := .resumed true }
    | _ => none
  | .bail => match p.phase with
    | .parked => some { p with listed := false, phase := .done .bailed }
    | .resumed _ => some { p with listed := false, phase := .done .bailed }
    | _ => none
  | .wake => match p.phase with
    | .resumed thrown => some { p with listed := false, phase := wake capacity s p thrown }
    | _ => none
  | .recheck => match p.phase with
    | .recheck => some { p with phase := if s.buffer.isEmpty then .done .refused else .attempt }
    | _ => none

/-- mirrors src/thread_channel.c:349-363 -/
def close (s : St V) : St V :=
  if s.closed then s else fireAllTriggers true (fireAllTriggers false { s with closed := true })

inductive Lbl (V : Type) where
  | call (kind : Kind V) (cancellation : Option Bool)
  /-- a value that cannot be transferred is sent: it is refused at once -/
  | untransferable (v : V)
  | attempt (i : Nat)
  | own (i : Nat) (e : Event)
  | close
  deriving DecidableEq, Repr

def step (capacity : Nat) (s : St V) : Lbl V → Option (St V)
  | .call kind cancellation =>
    some { s with calls := s.calls ++ [⟨kind, .attempt, false, false, cancellation⟩] }
  | .untransferable v => some { s with calls := s.calls ++ [⟨.send v, .done .refused, false, false, none⟩] }
  | .attempt i => s.calls[i]?.bind fun p =>
    if p.phase = .attempt then some (attempt capacity s i p) else none
  | .own i e => s.calls[i]?.bind fun p =>
    (own capacity s p e).map fun q => { s with calls := s.calls.set i q }
  | .close => some (close s)

def lts (V : Type) (capacity : Nat) : LTS (St V) (Lbl V) := LTS.ofFn (· = start) (step capacity)

end PhpAsync.L2.ThreadChannel
