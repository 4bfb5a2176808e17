import Mathlib.Logic.Function.Basic
import PhpAsync.L2Coroutine.Lifecycle

/-!
# Wakers and shared events

Model of how coroutines start and stop the events they wait for. An event counts its
starts (`loop_ref_count`); the first start arms it in the reactor, the last stop disarms
it. Several wakers may hold the same event. A waker starts its events when its coroutine
suspends, and stops them when the coroutine is resumed, cancelled or cleaned up; the bit
`events_stopped` keeps the bulk stop of `async_scheduler_coroutine_enqueue` and the later
cleanup from stopping them twice.

Stopping or cleaning a waker's events calls `stop` once on every event in it unless
`events_stopped` is set, and cleaning takes the events out (Zend `zend_async_waker_stop_events`,
`ZEND_ASYNC_WAKER_CLEAN_EVENTS`). `resumed_coroutines` is drained before a coroutine runs.

`starts` and `stops` are histories: how often a waker has added a reference to an event
and how often it has taken one. A start of a closed event, or one that fails, adds none; a
stop of a closed event, or of one with no references, takes none.
-/
namespace PhpAsync.L2.Wakers

open PhpAsync.Core
open PhpAsync.L2.Coroutine (Status)

structure Event where
  refs : Nat
  closed : Bool
  deriving DecidableEq, Repr

/-- `events` are the keys of the waker's table in order. `asleep`: the coroutine is inside
`async_scheduler_coroutine_suspend`; `due`: it stands in `resumed_coroutines`;
`unstarted`: an event was registered since the last suspension. -/
structure Waker where
  status : Status
  events : List Nat
  stopped : Bool
  asleep : Bool
  due : Bool
  unstarted : Bool
  starts : Nat → Nat
  stops : Nat → Nat

structure St where
  events : Nat → Event
  wakers : Nat → Waker

def St.setEvent (s : St) (e : Nat) (x : Event) : St := { s with events := Function.update s.events e x }

def St.setWaker (s : St) (w : Nat) (x : Waker) : St := { s with wakers := Function.update s.wakers w x }

/-- `EVENT_START_PROLOGUE` and the start of the handle, which may fail.
mirrors libuv_reactor.c:351-358 -/
def Event.start (x : Event) (fails : Bool) : Event :=
  if x.closed then x
  else if 0 < x.refs then { x with refs := x.refs + 1 }
  else if fails then x
  else { x with refs := 1 }

/-- `EVENT_STOP_PROLOGUE` and the stop of the handle.
mirrors libuv_reactor.c:360-375 -/
def Event.stop (x : Event) : Event :=
  if x.refs = 0 then x
  else if x.closed then { x with refs := 0 }
  else { x with refs := x.refs - 1 }

/-- `trigger->event->start(trigger->event)` by the waker `w`; the flag says whether it
threw. -/
def startEvent (s : St) (w e : Nat) (fails : Bool) : St × Bool :=
  let x := s.events e
  if x.closed = false ∧ (0 < x.refs ∨ fails = false) then
    ((s.setEvent e (x.start fails)).setWaker w
      { s.wakers w with starts := Function.update (s.wakers w).starts e ((s.wakers w).starts e + 1) }, false)
  else (s.setEvent e (x.start fails), !x.closed)

/-- `event->stop(event)` by the waker `w`. -/
def stopEvent (w : Nat) (s : St) (e : Nat) : St :=
  let x := s.events e
  if x.closed = false ∧ 0 < x.refs then
    (s.setEvent e x.stop).setWaker w
      { s.wakers w with stops := Function.update (s.wakers w).stops e ((s.wakers w).stops e + 1) }
  else s.setEvent e x.stop

/-- `zend_async_waker_stop_events`.
mirrors scheduler.c:1152-1156 -/
def stopWakerEvents (s : St) (w : Nat) : St :=
  if (s.wakers w).stopped then s
  else
    let t := (s.wakers w).events.foldl (stopEvent w) s
    t.setWaker w { t.wakers w with stopped := true }

/-- `ZEND_ASYNC_WAKER_CLEAN_EVENTS`. -/
def cleanEvents (s : St) (w : Nat) : St :=
  let t := if (s.wakers w).stopped then s else (s.wakers w).events.foldl (stopEvent w) s
  t.setWaker w { t.wakers w with events := [], unstarted := false }

/-- The short path of `async_coroutine_resume`: the coroutine is the current one and the
scheduler context is set.
mirrors coroutine.c:840-847 -/
def settle (s : St) (w : Nat) : St :=
  let t := s.setWaker w { s.wakers w with status := .result }
  if (s.wakers w).status = .noStatus then t else cleanEvents t w

/-- The loop of `start_waker_events`. A closed event is replayed; if that settles the wait,
the loop ends there. In the queue a replay settles nothing. The flag says whether a start
threw.
mirrors scheduler.c:1120-1150 -/
def startLoop (w : Nat) (fails settles : Nat → Bool) : List Nat → St → St × Bool
  | [], s => (s, false)
  | e :: es, s =>
    if (s.events e).closed then
      if settles e ∧ (s.wakers w).status = .waiting then (settle s w, false)
      else startLoop w fails settles es s
    else
      let r := startEvent s w e (fails e)
      let t := startLoop w fails settles es r.1
      (t.1, r.2 || t.2)

/-- mirrors scheduler.c:1114-1150 -/
def startWakerEvents (s : St) (w : Nat) (fails settles : Nat → Bool) : St × Bool :=
  startLoop w fails settles (s.wakers w).events
    (s.setWaker w { s.wakers w with stopped := false, unstarted := false })

/-- `zend_async_waker_clean` -/
def clean (s : St) (w : Nat) : St :=
  let t := cleanEvents s w
  t.setWaker w { t.wakers w with status := .noStatus }

/-- `async_scheduler_coroutine_suspend` up to the switch: the coroutine is asleep behind
it, or the wait is settled, or a start has failed.
mirrors scheduler.c:1654-1706 -/
def suspend (s : St) (w : Nat) (fails settles : Nat → Bool) : St :=
  let x := s.wakers w
  let queued := x.status.inQueue
  if x.events = [] ∧ queued = false then clean s w
  else
    let s₁ := if queued then s else s.setWaker w { x with status := .waiting }
    let r := startWakerEvents s₁ w fails settles
    if (r.1.wakers w).status = .result then cleanEvents r.1 w
    else if r.2 then clean (stopWakerEvents r.1 w) w
    else r.1.setWaker w { r.1.wakers w with asleep := true }

/-- `async_scheduler_coroutine_enqueue`: by the coroutine itself, or by a cancellation.
mirrors scheduler.c:1450-1510 -/
def enqueue (s : St) (w : Nat) : St :=
  if (s.wakers w).status.inQueue then s
  else stopWakerEvents (s.setWaker w { s.wakers w with status := .queued }) w

/-- `async_coroutine_resume` of a coroutine that is not the current one.
mirrors coroutine.c:795-864 -/
def resume (s : St) (w : Nat) (context : Bool) : St :=
  let x := s.wakers w
  if x.status = .noStatus ∧ context = false then s
  else if x.status = .queued then s
  else if context then s.setWaker w { x with status := .queued, due := true }
  else cleanEvents (s.setWaker w { x with status := .queued }) w

/-- One round of `process_resumed_coroutines`.
mirrors scheduler.c:426-437 -/
def process (s : St) (w : Nat) : St :=
  cleanEvents (s.setWaker w { s.wakers w with due := false }) w

/-- An event closes: by `close_event`, or by its owner.
mirrors libuv_reactor.c:377-384 -/
def close (s : St) (e : Nat) (byReactor : Bool) : St :=
  s.setEvent e { refs := if byReactor then 0 else (s.events e).refs, closed := true }

inductive Lbl where
  /-- `zend_async_resume_when` for the running coroutine; the iterator of an await registers with
  one that sleeps (async_API.c:618), which is left out -/
  | listen (w e : Nat)
  | suspend (w : Nat) (fails settles : List Nat)
  | resume (w : Nat) (context : Bool)
  | settle (w : Nat)
  | process (w : Nat)
  | enqueue (w : Nat)
  | wake (w : Nat)
  | clean (w : Nat)
  | close (e : Nat) (byReactor : Bool)
  deriving DecidableEq, Repr

/-- The coroutine runs, and its events have been cleaned if it was resumed by the
scheduler. -/
def Runs (s : St) (w : Nat) : Prop := (s.wakers w).asleep = false ∧ (s.wakers w).due = false

instance (s : St) (w : Nat) : Decidable (Runs s w) := inferInstanceAs (Decidable (_ ∧ _))

def step (s : St) : Lbl → Option St
  | .listen w e =>
    if Runs s w ∧ e ∉ (s.wakers w).events then
      some (s.setWaker w { s.wakers w with events := (s.wakers w).events ++ [e], unstarted := true })
    else none
  | .suspend w fails settles =>
    if Runs s w then some (suspend s w (fun e => decide (e ∈ fails)) fun e => decide (e ∈ settles)) else none
  | .resume w context => some (resume s w context)
  | .settle w => if (s.wakers w).status ≠ .queued then some (settle s w) else none
  | .process w => if (s.wakers w).due then some (process s w) else none
  | .enqueue w => some (enqueue s w)
  | .wake w =>
    if (s.wakers w).asleep ∧ (s.wakers w).due = false ∧
        ((s.wakers w).status = .queued ∨ (s.wakers w).status = .result) then
      some (s.setWaker w { s.wakers w with asleep := false, status := .result })
    else none
  | .clean w => if Runs s w then some (clean s w) else none
  | .close e byReactor => some (close s e byReactor)

def start : St where
  events _ := ⟨0, false⟩
  wakers _ := ⟨.noStatus, [], false, false, false, false, fun _ => 0, fun _ => 0⟩

def Init (s : St) : Prop := s = start

def lts : LTS St Lbl := LTS.ofFn Init step

end PhpAsync.L2.Wakers
