import Mathlib.Logic.Function.Basic
import Mathlib.Tactic.Simps.Basic
import PhpAsync.Core.LTS
import PhpAsync.L2Coroutine.Lifecycle

/-!
# The scheduler

Model of the scheduler: the queue of coroutines, the fibers they run on, the tick a
suspension makes on the fiber of its coroutine (`scheduler_next_tick`), the loop of a fiber
that is free (`fiber_entry`; the fiber of the scheduler runs nothing else), the resolution
of deadlocks, and the graceful shutdown.

**Fibers.** A fiber has a stack (`Stack`): it runs the code of a coroutine, or finalizes
the coroutine that has ended on it, or it is in the tick of a suspension or in the loop of
`fiber_entry` (`Host`), at some point of it (`Work`). One fiber has control (`St.run`); the
others stand where they have switched to another one. Coroutine 0 is the main coroutine and
fiber 0 the main flow; coroutine 1 is the scheduler, on fiber 1.

**Foreign code.** Where the scheduler calls a handler, a callback, a microtask or the code
of a coroutine, anything this code may do is a step of its own (`Op`), in any number, until
it returns. It does not suspend there, but for the code of coroutines itself; `deep` is the
scheduler in which the destructors that the end of a coroutine runs may suspend as well.

**Exceptions** are numbers, and an exception with its previous ones is a list, the newest
first; `[]` is `NULL`. `zend_exception_set_previous` appends.

**Choices.** What does not depend on the scheduler is chosen with the step (`Choice`).

Left out: bailout, switch handlers, failed spawns (`L2Registry`), the events and the errors
of a waker (`L2Waker`, `L2Coroutine`): an error is chosen where a waker hands it over.
-/
namespace PhpAsync.L2.Scheduler

open PhpAsync.Core
open PhpAsync.L2.Coroutine (Status)

/-! ## States -/

structure Co where
  status : Status
  started : Bool
  finished : Bool
  cancelled : Bool
  guarded : Bool
  fiber : Option Nat
  deriving DecidableEq, Repr

def Co.new : Co := ⟨.noStatus, false, false, false, false, none⟩

/-- The variables of `fiber_entry`: `has_handles`, `has_next_coroutine`, and whether the
coroutine the fiber was made for has been executed.
mirrors scheduler.c:1834-1862 -/
structure Loop where
  handles : Bool
  next : Bool
  begun : Bool
  deriving DecidableEq, Repr

/-- Points of `finally_shutdown`. -/
inductive Final where
  | loop
  | away
  | micro (running : Bool)
  | finalize (d : Nat) (held : List Nat) (late : Bool)
  deriving DecidableEq, Repr

/-- Points of a tick or of the loop of a fiber. -/
inductive Work where
  /-- `start_waker_events` -/
  | starting
  | heartbeat
  /-- `execute_microtasks`, between two of them or in one -/
  | micro (running : Bool)
  /-- `ZEND_ASYNC_REACTOR_EXECUTE` -/
  | reactor
  /-- `resolve_deadlocks`: channels are being closed; the last drain of the reactor -/
  | channels | drain
  /-- a coroutine cancelled before its start is finalized in place -/
  | finalize (d : Nat) (held : List Nat) (late : Bool)
  | final (saved : List Nat) (p : Final)
  /-- switched away; `again`: by a `resolve_deadlocks` that has failed -/
  | away | again
  | top
  | after (executed : Bool)
  /-- in the pool, from `execute_next_coroutine_from_fiber` or from `fiber_entry` -/
  | pooled | idle
  /-- the scheduler ends: last drains, then `async_scheduler_dtor` -/
  | drains (n : Nat)
  | last (exit : List Nat) (running : Bool)
  deriving DecidableEq, Repr

inductive Host where
  | loop (l : Loop)
  | suspend (c : Nat) (saved : List Nat) (l : Option Loop)
  deriving DecidableEq, Repr

/-- Below the code of a coroutine stands the loop of its fiber, but for the main flow. -/
inductive Stack where
  | fresh
  | host (h : Host) (w : Work)
  | code (c : Nat) (l : Option Loop)
  /-- the code has called `async_reactor_tick` -/
  | poll (c : Nat) (l : Option Loop)
  /-- `late`: the waker is destroyed -/
  | finish (c : Nat) (l : Option Loop) (held : List Nat) (late : Bool)
  /-- the main flow waits for the scheduler to end -/
  | ended
  deriving DecidableEq, Repr

/-- A fiber in the pool has got control: the coroutine it is given, and whether that owns
it. -/
structure Given where
  fiber : Nat
  coroutine : Nat
  owns : Bool
  deriving DecidableEq, Repr

/-- What was there to do when a deadlock was reported. -/
structure Report where
  queue : List Nat
  microtasks : Nat
  events : Nat
  deriving DecidableEq, Repr

/-- `made` coroutines and `fibers` fibers have been made; `registry` are the keys of
`ASYNC_G(coroutines)`, `events` is the count of active events. `result` is what the main
flow ends with. Histories: `given`, `reports`, and in `seen` the exceptions that were pending
where the scheduler looks for one, and the deadlock errors. -/
structure St where
  co : Nat → Co
  made : Nat
  registry : List Nat
  queue : List Nat
  resumed : List Nat
  microtasks : Nat
  events : Nat
  context : Bool
  shutdown : Bool
  exception : List Nat
  exit : List Nat
  current : Option Nat
  stack : Nat → Stack
  run : Nat
  pool : List Nat
  fibers : Nat
  given : List Given
  reports : List Report
  seen : List Nat
  result : Option (List Nat)

structure Choice where
  heartbeat : Bool
  /-- the throttle lets the reactor run -/
  reactor : Bool
  /-- a soft-timer channel is closed -/
  closed : Bool
  /-- all coroutines are Fibers that have yielded -/
  yielded : Bool
  /-- the number of the deadlock error -/
  deadlock : Nat
  /-- what stopping events raises during cancellations, and behind how many of them -/
  raised : List Nat
  behind : Nat
  /-- the error of the waker that is resumed, started or finalized -/
  error : List Nat
  /-- the exception of the coroutine that has ended is thrown on -/
  rethrown : Bool
  /-- how many active events are stopped -/
  stopped : Nat
  /-- the loop of libuv has a handle or a request -/
  alive : Bool
  deriving DecidableEq, Repr

/-- Nothing happens, and the reactor does not run. -/
def Choice.quiet : Choice := ⟨false, false, false, false, 0, [], 0, [], false, 0, true⟩

@[simps -fullyApplied]
def St.setCo (s : St) (c : Nat) (x : Co) : St := { s with co := Function.update s.co c x }

@[simps -fullyApplied]
def St.setStack (s : St) (f : Nat) (x : Stack) : St := { s with stack := Function.update s.stack f x }

def St.setStatus (s : St) (c : Nat) (x : Status) : St := s.setCo c { s.co c with status := x }

/-- `zend_exception_set_previous`, which does nothing for an exception and itself. -/
def setPrevious (e p : List Nat) : List Nat := if e = p then e else e ++ p

/-! ## Coroutines and the queue -/

/-- mirrors scheduler.c:1430-1513 -/
def enqueue (s : St) (c : Nat) : St :=
  if (s.co c).status.inQueue then s
  else
    { s.setStatus c .queued with
      queue := s.queue ++ [c]
      registry := if (s.co c).started = false ∧ c ∉ s.registry then s.registry ++ [c] else s.registry
      resumed := if s.context then s.resumed ++ [c] else s.resumed }

/-- mirrors coroutine.c:866-999 -/
def cancel (s : St) (c : Nat) (safely : Bool) : St :=
  let x := s.co c
  if x.finished then s
  else if s.current = some c ∧ x.status ≠ .waiting then s.setCo c { x with cancelled := true }
  else if x.guarded then s
  else
    let t := s.setCo c { x with cancelled := true }
    if x.started = false then (enqueue t c).setStatus c .ignored
    else if safely then t
    else enqueue t c

/-- `e` is the error that is thrown when the coroutine is not suspended.
mirrors coroutine.c:795-864 -/
def resume (s : St) (c e : Nat) : St :=
  if (s.co c).status = .noStatus ∧ s.context = false then { s with exception := e :: s.exception }
  else if (s.co c).status = .queued then s
  else if s.context ∧ s.current = some c then s.setStatus c .result
  else
    { s.setStatus c .queued with
      queue := s.queue ++ [c]
      resumed := if s.context then s.resumed ++ [c] else s.resumed }

/-- mirrors async_API.c:61-207 -/
def spawn (s : St) (front : Bool) : St :=
  { s.setStatus s.made .queued with
    made := s.made + 1
    registry := s.registry ++ [s.made]
    queue := if front then s.made :: s.queue else s.queue ++ [s.made] }

/-- `process_resumed_coroutines`: the events of their wakers are cleaned.
mirrors scheduler.c:425-436 -/
def processResumed (s : St) (x : Choice) : St := { s with resumed := [], events := s.events - x.stopped }

/-- The callbacks are over. -/
def leaveContext (s : St) (x : Choice) : St := { processResumed s x with context := false }

/-! ## Graceful shutdown -/

/-- mirrors scheduler.c:908-933 -/
def cancelOne (s : St) (c : Nat) : St :=
  if (s.co c).started then cancel (s.setCo c { s.co c with guarded := false }) c false
  else s.setCo c { s.co c with status := .ignored, cancelled := true }

/-- mirrors scheduler.c:887-942 -/
def cancelQueued (s : St) (x : Choice) : St :=
  let t := s.registry.foldl cancelOne { s with context := true }
  { leaveContext t x with exception := x.raised ++ s.exception }

/-- mirrors scheduler.c:1000-1038 -/
def startShutdown (s : St) (x : Choice) : St :=
  if s.shutdown then s
  else
    let t := cancelQueued { s with
      shutdown := true
      exit := if s.exception = [] then s.exit else s.exception
      exception := [] } x
    if t.exception = [] then t
    else { t with exit := setPrevious t.exception t.exit, exception := [], seen := t.seen ++ t.exception }

/-- The scheduler looks for an exception, outside of a shutdown.
mirrors scheduler.c:59-88 -/
def handle (s : St) (x : Choice) : St :=
  if s.exception = [] then s else startShutdown { s with seen := s.seen ++ s.exception } x

/-- The first part of `finally_shutdown`.
mirrors scheduler.c:1040-1049 -/
def finallyShutdown (s : St) (x : Choice) : St :=
  let t := { s with seen := s.seen ++ s.exception ++ x.raised }
  cancelQueued
    (if t.exit = [] ∨ t.exception = [] then t
    else { t with exit := setPrevious t.exception t.exit, exception := [] }) x

/-! ## Fibers -/

/-- The rest of `async_scheduler_coroutine_suspend` behind the tick.
mirrors scheduler.c:1721-1745 -/
def wake (s : St) (c : Nat) (saved : List Nat) (l : Option Loop) (x : Choice) : St :=
  { (if (s.co c).status = .queued then s.setStatus c .result else s).setStack s.run (.code c l) with
    current := some c
    exception := x.error ++ s.exception ++ saved }

/-- The code of a coroutine begins, on the fiber that has control.
mirrors coroutine.c:486-520 -/
def begin (s : St) (d : Nat) (l : Loop) (x : Choice) : St :=
  { (s.setCo d { s.co d with status := .noStatus, started := true, fiber := some s.run }).setStack s.run
      (.code d (some l)) with
    exception := x.error ++ s.exception }

/-- `execute_queued_coroutines` puts the exception aside.
mirrors scheduler.c:671-677 -/
def collect (s : St) (f : Nat) (h : Host) (saved : List Nat) : St :=
  { s.setStack f (.host h (.final (s.exception ++ saved) .loop)) with
    exception := [], seen := s.seen ++ s.exception }

/-- Control comes to the scheduler, which stands where it has switched away.
mirrors scheduler.c:340-378 -/
def toScheduler (s : St) : St :=
  let t := { s with current := some 1, run := 1 }
  match s.stack 1 with
  | .fresh => t.setStack 1 (.host (.loop ⟨true, true, true⟩) .top)
  | .host (.loop l) .away => t.setStack 1 (.host (.loop l) (.after true))
  | .host (.loop l) (.final saved .away) => collect t 1 (.loop l) saved
  | _ => s

def give (s : St) (g d : Nat) : St :=
  { s with given := s.given ++ [⟨g, d, decide ((s.co d).fiber = some g)⟩] }

/-- Control comes to the fiber `g`, of a coroutine or new or from the pool. -/
def arrive (s : St) (g : Nat) (x : Choice) : St :=
  let t := { s with run := g }
  match s.stack g, s.current with
  | .fresh, some d => begin t d ⟨true, true, false⟩ x
  | .host (.suspend c saved l) .away, _ => wake t c saved l x
  | .host (.suspend c saved l) .again, _ => toScheduler (t.setStack g (.host (.suspend c saved l) .away))
  | .host h (.final saved .away), _ => collect t g h saved
  | .host (.loop l) .pooled, some d => begin (give t g d) d l x
  | .host (.loop l) .idle, some d => begin (give t g d) d l x
  | _, _ => s

/-- A coroutine from the queue gets control, on its own fiber or on one it is given.
mirrors scheduler.c:516-545, 629-661 -/
def switchTo (s : St) (d : Nat) (x : Choice) : St :=
  let t := { s with current := some d }
  match (s.co d).fiber with
  | some g => arrive t g x
  | none =>
    match s.pool with
    | g :: p => arrive ({ t with pool := p }.setCo d { s.co d with fiber := some g }) g x
    | [] => arrive ({ t with fibers := s.fibers + 1 }.setCo d { s.co d with fiber := some s.fibers }) s.fibers x

/-- A coroutine from the queue that is to be ignored: its finalization begins. What it is
finalized with is held by the finalizer.
mirrors coroutine.c:449-468, 592-648 -/
def ignore (s : St) (d : Nat) : St :=
  { s.setCo d { s.co d with status := .result, finished := true } with current := some d, exception := [] }

/-- The end of a finalization.
mirrors coroutine.c:725-762 -/
def release (s : St) (d : Nat) (held : List Nat) (x : Choice) : St :=
  { s.setCo d { s.co d with fiber := none } with
    registry := s.registry.erase d
    current := if s.current = some d then none else s.current
    exception := if x.rethrown then held ++ s.exception else s.exception }

/-- mirrors scheduler.c:463-486 -/
def poolAccepts (s : St) : Bool := decide (s.pool.length < 4 ∨ s.pool.length < s.queue.length)

/-- The fiber that has control leaves its loop.
mirrors scheduler.c:2028-2053 -/
def exitFiber (s : St) (l : Loop) : St :=
  if s.run = 1 then s.setStack 1 (.host (.loop l) (.drains 8))
  else toScheduler (s.setStack s.run .fresh)

/-- mirrors libuv_reactor.c:503-544 -/
def loopAlive (s : St) (x : Choice) : Bool := x.alive && decide (0 < s.events)

/-- The condition of the loop of `fiber_entry`.
mirrors scheduler.c:2015-2016 -/
def loopEnd (s : St) (l : Loop) (x : Choice) : St :=
  if s.registry ≠ [] ∨ 0 < s.microtasks ∨ loopAlive s x then s.setStack s.run (.host (.loop l) .top)
  else exitFiber s l

/-- The suspended coroutine leaves its fiber to the scheduler. -/
def park (s : St) (h : Host) : St := toScheduler (s.setStack s.run (.host h .away))

/-! ## Deadlocks -/

/-- `resolve_deadlocks` returns.
mirrors scheduler.c:1586-1594, 1980-1988 -/
def afterResolve (s : St) (h : Host) (failed : Bool) (x : Choice) : St :=
  match h with
  | .suspend c saved l =>
    if failed then toScheduler (s.setStack s.run (.host (.suspend c saved l) .again))
    else park s h
  | .loop l => if failed then exitFiber s l else loopEnd s l x

def cancelDeadlocked (force : Bool) (s : St) (c : Nat) : St :=
  cancel (if force then s.setCo c { s.co c with guarded := false } else s) c false

/-- All coroutines are cancelled, up to the first behind whose cancellation an exception is
pending. `force`: protection does not count.
mirrors scheduler.c:795-817, 857-884 -/
def cancelAll (s : St) (force : Bool) (x : Choice) : St :=
  let cs :=
    if s.exception ≠ [] then s.registry.take 1
    else if x.raised ≠ [] then s.registry.take (x.behind + 1)
    else s.registry
  let t := cs.foldl (cancelDeadlocked force) { s with context := true }
  { leaveContext t x with exception := x.raised ++ s.exception }

/-- mirrors scheduler.c:749-830 -/
def resolve (s : St) (h : Host) (x : Choice) : St :=
  if x.closed then s.setStack s.run (.host h .channels)
  else if x.yielded then
    let t := cancelAll s false x
    afterResolve t h (decide (t.exception ≠ [])) x
  else s.setStack s.run (.host h .drain)

/-- mirrors scheduler.c:841-855 -/
def reportDeadlock (s : St) (x : Choice) : St :=
  { s with
    exit := setPrevious [x.deadlock] s.exit
    reports := s.reports ++ [⟨s.queue, s.microtasks, s.events⟩]
    seen := s.seen ++ [x.deadlock] }

/-- Behind the last drain.
mirrors scheduler.c:832-885 -/
def afterDrain (s : St) (h : Host) (x : Choice) : St :=
  let t := processResumed s x
  if s.queue ≠ [] then afterResolve t h false x
  else
    let u := cancelAll (reportDeadlock t x) true x
    afterResolve u h (decide (u.exception ≠ [])) x

/-! ## Ticks and loops -/

/-- `execute_next_coroutine` in the tick of `c`, for the entry of `d`.
mirrors scheduler.c:497-546, 1596-1612 -/
def tickExecute (s : St) (c : Nat) (saved : List Nat) (l : Option Loop) (d : Nat) (x : Choice) : St :=
  if s.current = some d then wake s c saved l x
  else if (s.co d).status = .ignored then
    (ignore s d).setStack s.run (.host (.suspend c saved l) (.finalize d (x.error ++ s.exception) false))
  else switchTo (s.setStack s.run (.host (.suspend c saved l) .away)) d x

/-- mirrors scheduler.c:1575-1618 -/
def tickEnd (s : St) (c : Nat) (saved : List Nat) (l : Option Loop) (handles : Bool) (x : Choice) : St :=
  if s.current.any fun d => (s.co d).status = .result then wake s c saved l x
  else
    match s.queue with
    | [] =>
      if handles = false ∧ s.registry ≠ [] ∧ s.microtasks = 0 then resolve s (.suspend c saved l) x
      else park s (.suspend c saved l)
    | d :: q => tickExecute { s with queue := q } c saved l d x

/-- `execute_next_coroutine_from_fiber`, for the entry of `d`.
mirrors scheduler.c:563-662 -/
def loopExecute (s : St) (l : Loop) (d : Nat) (x : Choice) : St :=
  if (s.co d).status = .ignored then
    (ignore s d).setStack s.run (.host (.loop l) (.finalize d (x.error ++ s.exception) false))
  else if s.run = 1 then switchTo (s.setStack s.run (.host (.loop l) .away)) d x
  else
    match (s.co d).fiber with
    | none => begin { s with current := some d } d l x
    | some g =>
      if g = s.run then begin s d l x
      else if poolAccepts s then
        arrive ({ s with pool := s.pool ++ [s.run], current := some d }.setStack s.run (.host (.loop l) .pooled)) g x
      else arrive (s.setStack s.run .fresh) g x

/-- A fiber executes somebody, or there is nobody to execute.
mirrors scheduler.c:1935-1978 -/
def dispatch (s : St) (l : Loop) (x : Choice) : St :=
  if l.next then
    match s.queue with
    | [] => s.setStack s.run (.host (.loop l) (.after false))
    | d :: q => loopExecute { s with queue := q } l d x
  else if s.run = 1 then s.setStack s.run (.host (.loop l) (.after false))
  else if poolAccepts s then
    toScheduler ({ s with pool := s.pool ++ [s.run] }.setStack s.run (.host (.loop l) .idle))
  else exitFiber s l

/-- Behind the microtasks: to the reactor, or past it.
mirrors scheduler.c:1540-1567, 1880-1933 -/
def afterMicro (s : St) (h : Host) (x : Choice) : St :=
  match h with
  | .suspend c saved l =>
    if x.reactor then s.setStack s.run (.host h .reactor) else tickEnd (leaveContext s x) c saved l true x
  | .loop l =>
    let l := { l with next := decide (s.queue ≠ []) }
    if s.queue = [] ∨ x.reactor then s.setStack s.run (.host (.loop l) .reactor)
    else dispatch (leaveContext s x) l x

/-- Behind the reactor.
mirrors scheduler.c:1560-1569, 1921-1933 -/
def afterReactor (s : St) (h : Host) (x : Choice) : St :=
  match h with
  | .suspend c saved l => tickEnd (leaveContext (handle s x) x) c saved l (loopAlive s x) x
  | .loop l =>
    dispatch { handle (processResumed s x) x with context := false } { l with handles := loopAlive s x } x

/-- Where an exception during the shutdown leads, and otherwise `k`. -/
def guardShutdown (s : St) (h : Host) (x : Choice) (k : St) : St :=
  if s.exception ≠ [] ∧ s.shutdown then
    (finallyShutdown s x).setStack s.run (.host h (.final [] .loop))
  else k

/-- The callbacks of a tick begin.
mirrors scheduler.c:1522-1537, 1862-1876 -/
def enterTick (s : St) (h : Host) (x : Choice) : St :=
  { s with context := true }.setStack s.run (.host h (if x.heartbeat then .heartbeat else .micro false))

/-- The last part of `finally_shutdown`.
mirrors scheduler.c:1054-1065 -/
def finalMerge (s : St) (x : Choice) : St :=
  let e := setPrevious s.exception s.exit
  let t := { leaveContext s x with seen := s.seen ++ s.exception }
  if s.exception = [] ∨ s.exit = [] then t else { t with exception := e, exit := e }

/-- `finally_shutdown` returns.
mirrors scheduler.c:59-88 -/
def afterFinal (s : St) (h : Host) : St :=
  match h with
  | .suspend _ _ _ => park s h
  | .loop l => exitFiber s l

/-- `execute_next_coroutine` in `finally_shutdown`, for the entry of `d`.
mirrors scheduler.c:497-546, 664-678 -/
def finalExecute (s : St) (h : Host) (saved : List Nat) (d : Nat) (x : Choice) : St :=
  if s.current = some d then collect s s.run h saved
  else if (s.co d).status = .ignored then
    (ignore s d).setStack s.run (.host h (.final saved (.finalize d (x.error ++ s.exception) false)))
  else switchTo (s.setStack s.run (.host h (.final saved .away))) d x

/-- mirrors scheduler.c:664-687, 1051-1053 -/
def finalLoop (s : St) (h : Host) (saved : List Nat) (x : Choice) : St :=
  match s.queue with
  | [] =>
    { s.setStack s.run (.host h (.final saved (.micro false))) with
      context := true, exception := setPrevious s.exception saved }
  | d :: q => finalExecute { s with queue := q } h saved d x

/-- The end of the scheduler, and the return to the main flow, which ends as well: nothing
runs any more.
mirrors scheduler.c:2055-2083, 1391-1427 -/
def finishScheduler (s : St) (exit : List Nat) : St :=
  let s := { s with context := false, seen := s.seen ++ s.exception, current := none }
  -- in the scheduler
  let t :=
    if s.exception ≠ [] ∧ exit ≠ [] then { s with exit := setPrevious s.exception exit, exception := [] }
    else if exit ≠ [] then { s with exit := [], exception := exit }
    else s
  -- in the main flow
  let e :=
    if t.exception ≠ [] ∧ t.exit ≠ [] then setPrevious t.exception t.exit
    else if t.exit ≠ [] then t.exit
    else t.exception
  { t with exit := [], exception := e, result := some e }

/-- What follows where foreign code has returned, or the scheduler goes on by itself. -/
def goWork (s : St) (h : Host) (w : Work) (x : Choice) : Option St :=
  let here (w : Work) (t : St) : St := t.setStack s.run (.host h w)
  match w, h with
  | .starting, .suspend c saved l =>
    let t := { s with context := false }
    if (s.co c).status = .result then
      some { (leaveContext s x).setStack s.run (.code c l) with exception := x.error ++ s.exception ++ saved }
    else if s.exception ≠ [] then
      some { (t.setStatus c .noStatus).setStack s.run (.code c l) with exception := s.exception ++ saved }
    else some (enterTick t h x)
  | .heartbeat, .suspend _ _ _ =>
    some (guardShutdown s h x (here (.micro false) (processResumed (handle s x) x)))
  | .heartbeat, .loop _ => some (guardShutdown s h x (here (.micro false) (handle s x)))
  | .micro false, _ =>
    if s.microtasks = 0 then some (guardShutdown s h x (afterMicro (handle s x) h x))
    else some (here (.micro true) { s with microtasks := s.microtasks - 1 })
  | .micro true, _ =>
    if s.exception = [] then some (here (.micro false) s)
    else some (guardShutdown s h x (afterMicro (handle s x) h x))
  | .reactor, _ => some (guardShutdown s h x (afterReactor s h x))
  | .channels, _ => some (afterResolve s h false x)
  | .drain, _ => some (afterDrain s h x)
  | .finalize d held false, _ => some (here (.finalize d held true) (s.setStatus d .noStatus))
  | .finalize d held true, .suspend c saved l =>
    let t := { release s d held x with current := none }
    if t.exception = [] then some (park t h) else some (wake t c saved l x)
  | .finalize d held true, .loop _ => some (here (.after true) { release s d held x with current := none })
  | .final saved .loop, _ => some (finalLoop s h saved x)
  | .final saved (.finalize d held false), _ =>
    some (here (.final saved (.finalize d held true)) (s.setStatus d .noStatus))
  | .final saved (.finalize d held true), _ =>
    some (collect { release s d held x with current := none } s.run h saved)
  | .final saved (.micro false), _ =>
    if s.microtasks = 0 then some (afterFinal (finalMerge s x) h)
    else some (here (.final saved (.micro true)) { s with microtasks := s.microtasks - 1 })
  | .final saved (.micro true), _ =>
    if s.exception = [] then some (here (.final saved (.micro false)) s)
    else some (afterFinal (finalMerge s x) h)
  | .top, .loop _ => some (guardShutdown s h x (enterTick (handle s x) h x))
  | .after executed, .loop l =>
    let t := handle s x
    some (guardShutdown s h x
      (if l.handles = false ∧ executed = false ∧ t.registry ≠ [] ∧ t.queue = [] ∧ t.microtasks = 0 then resolve t h x
      else loopEnd t l x))
  | .drains n, .loop _ =>
    if 0 < n ∧ loopAlive s x then some (here (.drains (n - 1)) s)
    else
      some (here (.last s.exit false) { s with
        context := true
        pool := []
        stack := fun f => if f ∈ s.pool then .fresh else s.stack f })
  | .last exit false, .loop _ =>
    if s.microtasks = 0 then some (finishScheduler (s.setStack s.run .fresh) exit)
    else some (here (.last exit true) { s with microtasks := s.microtasks - 1 })
  | .last exit true, .loop _ =>
    if s.exception = [] then some (here (.last exit false) s)
    else some (finishScheduler (s.setStack s.run .fresh) exit)
  | _, _ => none

/-- mirrors coroutine.c:592-770, scheduler.c:1328-1376 -/
def goFinish (s : St) (c : Nat) (l : Option Loop) (held : List Nat) (late : Bool) (x : Choice) : St :=
  if late = false then (s.setStatus c .noStatus).setStack s.run (.finish c l held true)
  else
    let t := release s c held x
    match l with
    | some l => t.setStack s.run (.host (.loop { l with begun := true }) (if l.begun then .after true else .top))
    | none => toScheduler (t.setStack s.run .ended)

def go (s : St) (x : Choice) : Option St :=
  match s.stack s.run with
  | .host h w => goWork s h w x
  | .poll c l => some ((leaveContext s x).setStack s.run (.code c l))
  | .finish c l held late => some (goFinish s c l held late x)
  | _ => none

/-! ## Foreign code -/

/-- Foreign code is running. -/
def Stack.foreign : Stack → Bool
  | .code _ _ | .poll _ _ | .finish _ _ _ _ => true
  | .host _ w =>
    match w with
    | .starting | .heartbeat | .micro true | .reactor | .channels | .drain | .finalize _ _ _
    | .final _ (.micro true) | .final _ (.finalize _ _ _) | .last _ true => true
    | .drains n => decide (n < 8)
    | _ => false
  | .fresh | .ended => false

inductive Op where
  | resume (c e : Nat)
  | cancel (c : Nat) (safely : Bool)
  | enqueue (c : Nat)
  | create
  | spawn (front : Bool)
  | microtask
  | startEvent
  | stopEvent
  | throw (e : Nat)
  | shutdown (x : Choice)
  deriving DecidableEq, Repr

/-- The scheduler itself cannot be cancelled or queued. -/
def act (s : St) : Op → Option St
  | .resume c e => if c ≠ 1 ∧ c < s.made then some (resume s c e) else none
  | .cancel c safely => if c ≠ 1 ∧ c < s.made then some (cancel s c safely) else none
  | .enqueue c => if c ≠ 1 ∧ c < s.made then some (enqueue s c) else none
  | .create => some { s with made := s.made + 1 }
  | .spawn front => some (spawn s front)
  | .microtask => some { s with microtasks := s.microtasks + 1 }
  | .startEvent => some { s with events := s.events + 1 }
  | .stopEvent => some { s with events := s.events - 1 }
  | .throw e => some { s with exception := e :: s.exception }
  | .shutdown x => if s.exception = [] then some (startShutdown s x) else none

/-- What the code of a coroutine does besides. -/
inductive Call where
  /-- `yield`: the coroutine queues itself before; `bare`: its waker has no events; `e` is
  the error thrown in the scheduler context -/
  | suspend (yield bare : Bool) (e : Nat)
  | poll
  | clean
  | protect (on : Bool)
  | catch_
  | finish
  deriving DecidableEq, Repr

/-- mirrors scheduler.c:1621-1680 -/
def suspend (s : St) (c : Nat) (l : Option Loop) (bare : Bool) (e : Nat) : St :=
  if s.context then { s with exception := [e] }
  else if (s.co c).status.inQueue then
    { s.setStack s.run (.host (.suspend c s.exception l) .starting) with context := true, exception := [] }
  else if bare then s.setStatus c .noStatus
  else
    { (s.setStatus c .waiting).setStack s.run (.host (.suspend c s.exception l) .starting) with
      context := true, exception := [] }

/-- The main coroutine gives its fiber up before it is finalized. -/
def finish (s : St) (c : Nat) (l : Option Loop) : St :=
  let t := { s.setStack s.run (.finish c l s.exception false) with exception := [] }
  match l with
  | some _ => t.setCo c { s.co c with finished := true }
  | none => { t.setCo c { s.co c with finished := true, fiber := none } with current := none }

def call (s : St) (c : Nat) (l : Option Loop) : Call → St
  | .suspend yield bare e => suspend (if yield then enqueue s c else s) c l bare e
  | .poll => { s.setStack s.run (.poll c l) with context := true }
  | .clean => s.setStatus c .noStatus
  | .protect on => s.setCo c { s.co c with guarded := on }
  | .catch_ => { s with exception := [] }
  | .finish => finish s c l

/-! ## Runs -/

inductive Lbl where
  | op (o : Op)
  | call (k : Call)
  | go (x : Choice)
  deriving DecidableEq, Repr

def step (s : St) : Lbl → Option St
  | .op o => if (s.stack s.run).foreign then act s o else none
  | .call k =>
    match s.stack s.run with
    | .code c l => some (call s c l k)
    | _ => none
  | .go x => go s x

/-- The scheduler has just been launched by the main flow.
mirrors scheduler.c:1165-1318 -/
def start : St where
  co c :=
    if c = 0 then { Co.new with started := true, fiber := some 0 }
    else if c = 1 then { Co.new with fiber := some 1 }
    else Co.new
  made := 2
  registry := [0]
  queue := []
  resumed := []
  microtasks := 0
  events := 0
  context := false
  shutdown := false
  exception := []
  exit := []
  current := some 0
  stack f := if f = 0 then .code 0 none else .fresh
  run := 0
  pool := []
  fibers := 2
  given := []
  reports := []
  seen := []
  result := none

def Init (s : St) : Prop := s = start

def lts : LTS St Lbl := LTS.ofFn Init step

/-! ## Destructors that suspend -/

/-- The object of a coroutine that was finalized is released: the coroutine, what it holds,
and the frame to which the release returns.
mirrors coroutine.c:164-209, 474-477, 542-546 -/
def Stack.released : Stack → Option (Nat × List Nat × Stack)
  | .finish c (some l) held true =>
    some (c, held, .host (.loop { l with begun := true }) (if l.begun then .after true else .top))
  | .host h (.finalize d held true) => some (d, held, .host h (.finalize d [] true))
  | .host h (.final saved (.finalize d held true)) => some (d, held, .host h (.final saved (.finalize d [] true)))
  | _ => none

/-- A destructor suspends. It runs as the code of the coroutine that was finalized, which
owns no fiber any more. `under` are the frames below such destructors, for each fiber. -/
def destructor (s : St) (under : Nat → List Stack) (yield bare : Bool) (e : Nat) (x : Choice) :
    Option (St × (Nat → List Stack)) :=
  (s.stack s.run).released.map fun (d, held, z) =>
    let t := { release s d held x with current := some d }.setStack s.run (.code d none)
    (suspend (if yield then enqueue t d else t) d none bare e, Function.update under s.run (z :: under s.run))

/-- The destructor returns.
mirrors coroutine.c:474-480, 556-558, scheduler.c:512-518, 1596-1612 -/
def leave (s : St) (z : Stack) (x : Choice) : St :=
  let t := { s with current := none }
  match z with
  | .host (.suspend c saved l) (.finalize _ _ _) =>
    if s.exception = [] then park t (.suspend c saved l) else wake t c saved l x
  | .host h (.finalize _ _ _) => t.setStack s.run (.host h (.after true))
  | .host h (.final saved _) => collect t s.run h saved
  | z => t.setStack s.run z

inductive DeepLbl where
  | base (l : Lbl)
  | destructor (yield bare : Bool) (e : Nat) (x : Choice)
  | leave (x : Choice)
  deriving DecidableEq, Repr

def deepStep (p : St × (Nat → List Stack)) : DeepLbl → Option (St × (Nat → List Stack))
  | .base l => if l = .call .finish ∧ p.2 p.1.run ≠ [] then none else (step p.1 l).map fun t => (t, p.2)
  | .destructor yield bare e x => destructor p.1 p.2 yield bare e x
  | .leave x =>
    match p.1.stack p.1.run, p.2 p.1.run with
    | .code _ _, z :: zs => some (leave p.1 z x, Function.update p.2 p.1.run zs)
    | _, _ => none

def deep : LTS (St × (Nat → List Stack)) DeepLbl := LTS.ofFn (· = (start, fun _ => [])) deepStep

/-- No destructor that the end of a coroutine runs suspends, and the other steps meet `G`. -/
def Unsuspended (G : St → Lbl → Prop) (p : St × (Nat → List Stack)) : DeepLbl → Prop
  | .base l => G p.1 l
  | .destructor _ _ _ _ => False
  | .leave _ => True

instance (G : St → Lbl → Prop) [∀ s l, Decidable (G s l)] (p : St × (Nat → List Stack)) :
    ∀ l, Decidable (Unsuspended G p l)
  | .base _ => inferInstanceAs (Decidable (G _ _))
  | .destructor _ _ _ _ => inferInstanceAs (Decidable False)
  | .leave _ => inferInstanceAs (Decidable True)

/-- Without such destructors this is the scheduler above. -/
theorem plain_step {G : St → Lbl → Prop} {p q : St × (Nat → List Stack)} {l : DeepLbl} (hu : p.2 = fun _ => [])
    (hst : (deep.restrict (Unsuspended G)).step p l q) :
    ∃ l', l = .base l' ∧ (lts.restrict G).step p.1 l' q.1 ∧ q.2 = p.2 := by
  obtain ⟨hg, hst⟩ := hst
  cases l with
  | base l =>
    obtain ⟨-, hst⟩ := Option.ite_none_left_eq_some.1 hst
    obtain ⟨t, ht, rfl⟩ := Option.map_eq_some_iff.1 hst
    exact ⟨l, rfl, ⟨hg, ht⟩, rfl⟩
  | destructor => exact hg.elim
  | leave x =>
    simp only [deep, LTS.ofFn, deepStep, hu] at hst
    split at hst
    · rename_i hnil
      cases hnil
    · cases hst

theorem plain_inductive (G : St → Lbl → Prop) : (deep.restrict (Unsuspended G)).Inductive fun p =>
    (lts.restrict G).Reachable p.1 ∧ p.2 = fun _ => [] where
  init p hp := by
    rw [show p = (start, fun _ => []) from hp]
    exact ⟨⟨start, [], rfl, .nil start⟩, rfl⟩
  step p l q h hst := by
    obtain ⟨l', -, hstep, hu⟩ := plain_step h.2 hst
    exact ⟨h.1.step hstep, hu.trans h.2⟩

end PhpAsync.L2.Scheduler
