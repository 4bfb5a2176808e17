import PhpAsync.Core.LTS
import Mathlib.Logic.Function.Basic
import Mathlib.Tactic.Simps.Basic

/-!
# Chains of futures

Model of `map()`, `catch()` and `finally()` (future.c) and of the concurrent iterator
(iterator.c) that runs their callables.

A future derived from a pending source is appended to the children of the source. When
the source is resolved its callback creates an iterator with a queue of parents, and a
coroutine that runs it; the coroutine visits the children of one parent after the other.
A child that is resolved by the iterator and has children itself joins the queue. While
a callable is suspended the microtask of the iterator spawns further coroutines, which
share the queue and the cursor. A future derived from a completed source gets a
coroutine of its own.

The children of a completed future do not change, so the cursor is kept as what is left:
of the children of the current parent (`rest`) and of the queue (`todo`). The iteration
is over once the queue was found empty. `ASYNC_ITERATOR_MOVING` lasts for calls that do
not suspend and is not a state here; a coroutine may be interrupted between two elements
and not only in a callable, which allows more runs than the scheduler has.

A callable is called at most once (`Chain.lean`), so a function for each future says all
there is about its result; whether it suspends on the way is chosen at the call.

One Future object for each event. Left out: warnings, transfer to other threads, reference
counts other than that of the value a callable returns (`Settle.lean`), and what an exception
that nobody handled does to the scope, except that coroutines may be cancelled before they
start (`drop`).
-/
namespace PhpAsync.L2.Future

open PhpAsync.Core

/-- `async_future_mapper_type_t`.
mirrors future.h:27-32 -/
inductive Kind where
  | success
  | catch_
  | finally_
  deriving DecidableEq, Repr

/-- `result` and `exception` of a completed `zend_future_t`. -/
inductive Outcome (V E : Type) where
  | ok (v : V)
  | error (e : E)
  deriving DecidableEq, Repr

variable {V E : Type}

def Outcome.isError : Outcome V E → Bool
  | .ok _ => false
  | .error _ => true

/-- What is outside: the callable given for each future (its argument is the outcome of
the source, its result what it returns or throws), `zend_exception_set_previous`, and
the null value. -/
structure Env (V E : Type) where
  callable : Nat → Outcome V E → Outcome V E
  setPrevious : E → E → E
  null : V

/-! ## The mapper -/

/-- mirrors future.c:1428-1462 -/
def shouldCall : Kind → Outcome V E → Bool
  | .success, .ok _ => true
  | .success, .error _ => false
  | .catch_, .ok _ => false
  | .catch_, .error _ => true
  | .finally_, _ => true

/-- `fallback_exception` at the call: `catch()` takes the exception over.
mirrors future.c:1418-1462 -/
def fallback : Kind → Outcome V E → Option E
  | _, .ok _ => none
  | .catch_, .error _ => none
  | _, .error e => some e

/-- `retval`, once `finally()` has replaced it. A rejected source has no result to replace
it with.
mirrors future.c:1464-1480 -/
def retval (k : Kind) (parent : Outcome V E) (ret : Option (Outcome V E)) : Option V :=
  match k, parent, ret with
  | .finally_, .ok v, _ => some v
  | _, _, some (.ok v) => some v
  | _, _, _ => none

/-- `finally()` destroys what its callable returned, and the end of the mapper destroys
`retval`: on a rejected source that is the same value.
mirrors future.c:1471-1480, 1520 -/
def destroyedTwice (k : Kind) (parent : Outcome V E) (ret : Option (Outcome V E)) : Option V :=
  match k, parent with
  | .finally_, .error _ => retval k parent ret
  | _, _ => none

/-- The exception the child is rejected with.
mirrors future.c:1482-1491 -/
def exception (c : Env V E) (k : Kind) (parent : Outcome V E) (ret : Option (Outcome V E)) :
    Option E :=
  match ret with
  | some (.error x) =>
    match fallback k parent with
    | some e => some (c.setPrevious x e)
    | none => some x
  | _ => fallback k parent

/-- What the child is settled with; `ret` is what the callable returned or threw, if it
was called.
mirrors future.c:1482-1518 -/
def mapped (c : Env V E) (k : Kind) (parent : Outcome V E) (ret : Option (Outcome V E)) :
    Outcome V E :=
  match exception c k parent ret with
  | some e => .error e
  | none =>
    match retval k parent ret, parent with
    | some v, _ => .ok v
    | none, .ok v => .ok v
    | none, .error _ => .ok c.null

/-! ## State -/

/-- `children` are those derived while it was pending. `handled` is the flag
`EXCEPTION_HANDLED` of the event, `awaited` says that a subscriber is there that sets it.
`external` and `calls` are history: settled by `complete()`, `error()` or `cancel()`, and
how often its callable was called. `closed` says that the scope which was the current one at
its first derivation is closed.
mirrors future.h:62-69, future.c:1745-1757 -/
structure Fut (V E : Type) where
  source : Option (Nat × Kind)
  children : List Nat
  outcome : Option (Outcome V E)
  awaited : Bool
  handled : Bool
  external : Bool
  calls : Nat
  closed : Bool

def Fut.create (source : Option (Nat × Kind)) : Fut V E := ⟨source, [], none, false, false, false, 0, false⟩

inductive IterState where
  | init | started | finished
  deriving DecidableEq, Repr

/-- `future_iterator_t` and its `async_iterator_t`.
mirrors future.c:165-182, iterator.h -/
structure Iter where
  state : IterState
  parent : Option Nat
  rest : List Nat
  todo : List Nat
  active : Nat
  deriving DecidableEq, Repr

/-- A coroutine: spawned for an iterator, at the head of the loop of `iterate`, suspended
in the callable of `child`, spawned for one mapper, ended. -/
inductive Worker where
  | entry (it : Nat)
  | looping (it : Nat)
  | inside (it : Option Nat) (parent child : Nat)
  | mapper (parent child : Nat)
  | done
  deriving DecidableEq, Repr

structure St (V E : Type) where
  futs : Nat → Fut V E
  nFuts : Nat
  iters : Nat → Iter
  nIters : Nat
  workers : Nat → Worker
  nWorkers : Nat

def start : St V E where
  futs _ := Fut.create none
  nFuts := 0
  iters _ := ⟨.finished, none, [], [], 0⟩
  nIters := 0
  workers _ := .done
  nWorkers := 0

@[simps -fullyApplied iters workers]
def St.setFut (s : St V E) (i : Nat) (f : Fut V E) : St V E :=
  { s with futs := Function.update s.futs i f }

@[simps -fullyApplied futs workers]
def St.setIter (s : St V E) (k : Nat) (it : Iter) : St V E :=
  { s with iters := Function.update s.iters k it }

@[simps -fullyApplied futs iters]
def St.setWorker (s : St V E) (w : Nat) (x : Worker) : St V E :=
  { s with workers := Function.update s.workers w x }

def St.spawn (s : St V E) (x : Worker) : St V E :=
  { s with workers := Function.update s.workers s.nWorkers x, nWorkers := s.nWorkers + 1 }

def St.children (s : St V E) (i : Nat) : List Nat := (s.futs i).children

section Fields

variable (s : St V E) (i j : Nat) (f : Fut V E) (it : Iter) (x : Worker)

@[simp] theorem setFut_self : (s.setFut i f).futs i = f := Function.update_self ..

@[simp] theorem setFut_ne (h : j ≠ i) : (s.setFut i f).futs j = s.futs j := Function.update_of_ne h ..

@[simp] theorem setIter_self : (s.setIter i it).iters i = it := Function.update_self ..

@[simp] theorem setWorker_self : (s.setWorker i x).workers i = x := Function.update_self ..

end Fields

/-! ## Resolving a future -/

/-- `future_iterator_create` and `async_iterator_run_in_coroutine`.
mirrors future.c:205-226, 1587-1615, iterator.c:580-600 -/
def createIterator (s : St V E) (i : Nat) : St V E :=
  { s with
    iters := Function.update s.iters s.nIters ⟨.init, none, [], [i], 1⟩
    nIters := s.nIters + 1 }.spawn (.entry s.nIters)

/-- `async_future_callback_handler`. In a closed scope no coroutine can be spawned for the
new iterator.
mirrors future.c:1561-1615, iterator.c:586-589, async_API.c:103-106 -/
def callbackHandler (s : St V E) (i : Nat) (it : Option Nat) : St V E :=
  if (s.children i).isEmpty then s
  else
    match it with
    | some k =>
      (s.setIter k { s.iters k with todo := (s.iters k).todo ++ [i] }).setFut i
        { s.futs i with handled := true }
    | none => if (s.futs i).closed then s else createIterator s i

/-- The outcome is stored and the subscribers are notified. -/
def record (s : St V E) (i : Nat) (o : Outcome V E) (external : Bool) : St V E :=
  s.setFut i
    { s.futs i with
      outcome := some o
      handled := (s.futs i).handled || ((s.futs i).awaited && o.isError)
      external := external }

/-- `zend_future_resolve`; `it` is the iterator that resolves.
mirrors future.c:481-512 -/
def resolve (s : St V E) (i : Nat) (o : Outcome V E) (it : Option Nat) (external : Bool) : St V E :=
  if (s.futs i).outcome.isSome then s else callbackHandler (record s i o external) i it

/-! ## The iterator -/

/-- The first parent of the queue that has children, and the queue behind it.
mirrors future.c:280-321 -/
def nextParent (children : Nat → List Nat) : List Nat → Option (Nat × List Nat)
  | [] => none
  | p :: todo => if (children p).isEmpty then nextParent children todo else some (p, todo)

/-- `future_iterator_valid`: the iterator at its current child, `none` at the end.
mirrors future.c:327-361 -/
def valid (children : Nat → List Nat) (it : Iter) : Option Iter :=
  if it.rest.isEmpty then
    (nextParent children it.todo).map fun p =>
      { it with parent := some p.1, rest := children p.1, todo := p.2 }
  else some it

/-- The current child and its parent, with the cursor moved behind it.
mirrors future.c:366-421 -/
def Iter.next (it : Iter) : Option (Nat × Nat × Iter) :=
  match it.parent, it.rest with
  | some p, i :: rest => some (p, i, { it with rest := rest })
  | _, _ => none

/-- The last coroutine to leave completes the iterator.
mirrors iterator.c:80-98 -/
def release (s : St V E) (k : Nat) : St V E :=
  s.setIter k
    (if 1 < (s.iters k).active then { s.iters k with active := (s.iters k).active - 1 }
    else { s.iters k with active := 0, state := .finished })

/-- The coroutine `w` leaves the loop with the iterator finished. -/
def finish (s : St V E) (w k : Nat) : St V E :=
  (release (s.setIter k { s.iters k with state := .finished }) k).setWorker w .done

/-! ## `process_future_mapper` -/

/-- The coroutine `w` goes on behind a mapper; `unhandled` says that it throws. In a
coroutine of its own a mapper is the end.
mirrors iterator.c:509-515, future.c:1666-1676 -/
def goOn (s : St V E) (w : Nat) (it : Option Nat) (unhandled : Bool) : St V E :=
  match it with
  | none => s.setWorker w .done
  | some k => if unhandled then finish s w k else s.setWorker w (.looping k)

/-- Behind the call: the child is settled, and an exception nobody has handled is thrown.
mirrors future.c:1482-1528 -/
def conclude (c : Env V E) (s : St V E) (w : Nat) (it : Option Nat) (i : Nat) (k : Kind)
    (parent : Outcome V E) (ret : Option (Outcome V E)) : St V E :=
  let o := mapped c k parent ret
  let s' := resolve s i o it false
  goOn s' w it (o.isError && !(s'.futs i).handled)

/-- The call of the callable begins; `catch()` marks the exception of the parent. -/
def beginCall (s : St V E) (p i : Nat) (k : Kind) : St V E :=
  let s := s.setFut i { s.futs i with calls := (s.futs i).calls + 1 }
  if k = .catch_ then s.setFut p { s.futs p with handled := true } else s

/-- `process_future_mapper` up to the first suspension; `none` if the callable was to
suspend and is not called.
mirrors future.c:1404-1528 -/
def processFutureMapper (c : Env V E) (s : St V E) (w : Nat) (it : Option Nat) (p i : Nat)
    (suspends : Bool) : Option (St V E) :=
  match (s.futs i).outcome, (s.futs p).outcome, (s.futs i).source with
  | none, some parent, some (_, k) =>
    if shouldCall k parent then
      let s' := beginCall s p i k
      if suspends then some (s'.setWorker w (.inside it p i))
      else some (conclude c s' w it i k parent (some (c.callable i parent)))
    else if suspends then none
    else some (conclude c s w it i k parent none)
  | _, _, _ => if suspends then none else some (goOn s w it false)

/-! ## Transitions -/

inductive Lbl (V E : Type) where
  /-- a new `FutureState` with its `Future` -/
  | create
  /-- `map()`, `catch()`, `finally()` on `source` -/
  | derive (source : Nat) (k : Kind)
  /-- `complete()`, `error()` or `Future::cancel()` -/
  | settle (i : Nat) (o : Outcome V E)
  /-- a subscriber that handles exceptions comes or goes -/
  | await (i : Nat) (on : Bool)
  /-- the scope of the derivations is closed -/
  | close (i : Nat)
  /-- the coroutine of an iterator starts -/
  | enter (w : Nat)
  /-- the coroutine at the head of its loop takes the next child -/
  | visit (w : Nat) (suspends : Bool)
  /-- the coroutine of a mapper starts -/
  | run (w : Nat) (suspends : Bool)
  /-- a suspended callable returns or throws -/
  | return_ (w : Nat)
  /-- the microtask of the iterator spawns another coroutine -/
  | microtask (k : Nat)
  /-- a coroutine is cancelled before it starts -/
  | drop (w : Nat)

/-- mirrors future.c:1678-1778 -/
def createMapper (s : St V E) (source : Nat) (k : Kind) : St V E :=
  let i := s.nFuts
  let s := { s with
    futs := Function.update s.futs i (Fut.create (some (source, k))), nFuts := s.nFuts + 1 }
  if (s.futs source).outcome.isSome then s.spawn (.mapper source i)
  else s.setFut source { s.futs source with children := (s.futs source).children ++ [i] }

/-- `async_iterator_run` up to the loop of `iterate`.
mirrors iterator.c:354-372, 527-565 -/
def enter (s : St V E) (w k : Nat) : St V E :=
  let it := s.iters k
  let s := if it.state = .init then
      s.setIter k
        { (valid s.children it).getD { it with parent := none, todo := [] } with state := .started }
    else s
  s.setWorker w (.looping k)

/-- One round of the loop of `iterate`.
mirrors iterator.c:376-515 -/
def visit (c : Env V E) (s : St V E) (w k : Nat) (suspends : Bool) : Option (St V E) :=
  if (s.iters k).state = .finished then
    if suspends then none else some ((release s k).setWorker w .done)
  else
    match (valid s.children (s.iters k)).bind Iter.next with
    | none =>
      if suspends then none
      else some (finish (s.setIter k { s.iters k with parent := none, rest := [], todo := [] }) w k)
    | some (p, i, it) => processFutureMapper c (s.setIter k it) w (some k) p i suspends

/-- mirrors iterator.c:137-156 -/
def microtask (s : St V E) (k : Nat) : Option (St V E) :=
  match (s.iters k).state with
  | .started =>
    some ((s.setIter k { s.iters k with active := (s.iters k).active + 1 }).spawn (.entry k))
  | _ => none

/-- mirrors iterator.c:101-113, future.c:1640-1662 -/
def drop (s : St V E) (w : Nat) : Option (St V E) :=
  match s.workers w with
  | .entry k => some ((release s k).setWorker w .done)
  | .mapper _ _ => some (s.setWorker w .done)
  | _ => none

def step (c : Env V E) (s : St V E) : Lbl V E → Option (St V E)
  | .create => some { s with nFuts := s.nFuts + 1 }
  | .derive source k => if source < s.nFuts then some (createMapper s source k) else none
  | .settle i o =>
    if i < s.nFuts ∧ (s.futs i).outcome.isNone then some (resolve s i o none true) else none
  | .await i on => if i < s.nFuts then some (s.setFut i { s.futs i with awaited := on }) else none
  | .close i => if i < s.nFuts then some (s.setFut i { s.futs i with closed := true }) else none
  | .enter w =>
    match s.workers w with
    | .entry k => some (enter s w k)
    | _ => none
  | .visit w suspends =>
    match s.workers w with
    | .looping k => visit c s w k suspends
    | _ => none
  | .run w suspends =>
    match s.workers w with
    | .mapper p i => processFutureMapper c (s.setWorker w .done) w none p i suspends
    | _ => none
  | .return_ w =>
    match s.workers w with
    | .inside it p i =>
      match (s.futs p).outcome, (s.futs i).source with
      | some parent, some (_, k) =>
        some (conclude c s w it i k parent (some (c.callable i parent)))
      | _, _ => none
    | _ => none
  | .microtask k => microtask s k
  | .drop w => drop s w

def Init (s : St V E) : Prop := s = start

def lts (c : Env V E) : LTS (St V E) (Lbl V E) := LTS.ofFn Init (step c)

end PhpAsync.L2.Future
