import PhpAsync.Core.LTS
import PhpAsync.L1Runtime.Throwable

/-!
# The `await_*` functions

Model of `async_await_futures` (async_API.c), the one function behind
`await_all()`, `await_any_of()`, `await_any_or_fail()` and the others: one call of
it by one coroutine, in an environment where awaitables settle at any time.

An array is walked by the call itself: settled awaitables are replayed through the
callback, or passed over when they have no `replay`, a callback is registered on the
others, and the caller suspends unless the wait is over. A Traversable is walked by a coroutine of its own while the caller
is suspended; its methods may suspend, so awaitables settle in between, and what it
yields is not known in advance. While `current()`, `key()` or `next()` is suspended
the iterator is `MOVING` and nobody else moves it (iterator.c:376-515), so elements
are handed over one by one and in order; a `valid()` that suspends, which lets a
second worker in, is not modelled.

The callback of an element of a Traversable has no coroutine when it is replayed
(async_API.c:550-559): a resumption through it is a null dereference (`crashed`).

When the caller is resumed outside the scheduler its callbacks are removed at once,
and inside the scheduler (`deferred`) only before it runs.

`seen` are the awaitables the input has handed over, `failures` the exceptions the
callback was called with, `others` the exceptions that reached the caller in another
way. Left out: timeouts, reference counts, and what the walk of
a Traversable does after the caller has ended.
-/
namespace PhpAsync.L2.Await

open PhpAsync.Core PhpAsync.L1

inductive Key where
  | str (s : String)
  | int (n : Int)
  deriving DecidableEq, Repr

/-- The key of an element of a Traversable; `other` is neither string, int nor null. -/
inductive IterKey where
  | key (k : Key)
  | null
  | other
  deriving DecidableEq, Repr

/-- What `zval_to_event` makes of an element.
mirrors async_API.c:304-321 -/
inductive Item where
  | null
  | awaitable (a : Nat)
  | invalid
  deriving DecidableEq, Repr

inductive Result where
  | ok (v : Nat)
  | failed (e : Err)
  deriving DecidableEq, Repr

def Result.isFailed : Result → Bool
  | .failed _ => true
  | .ok _ => false

inductive Input where
  | array (items : List (Key × Item))
  | traversable
  deriving DecidableEq, Repr

/-- The arguments of the call; `token` says that a cancellation event was given.
`isCoroutine`, `zvalResult` and `replays` are what the call asks of an awaitable; a
timer has no `replay`.
mirrors async_API.c:891-902 -/
structure Cfg where
  input : Input
  count : Int
  ignoreErrors : Bool
  token : Bool
  collectErrors : Bool
  fillNull : Bool
  preserveKeyOrder : Bool
  cancelOnExit : Bool
  isCoroutine : Nat → Bool
  zvalResult : Nat → Bool
  replays : Nat → Bool

/-! ## The functions of the family -/

/-- The cast `(int)` of a `zend_long`. -/
def toInt (n : Int) : Int := (BitVec.ofInt 32 n).toInt

/-- mirrors async.c:382-411 -/
def awaitAnyOrFail (input : Input) (token : Bool) (co zv rp : Nat → Bool) : Cfg :=
  ⟨input, 1, false, token, false, false, false, false, co, zv, rp⟩

/-- mirrors async.c:432-462 -/
def awaitFirstSuccess (input : Input) (token : Bool) (co zv rp : Nat → Bool) : Cfg :=
  ⟨input, 1, true, token, true, false, false, true, co, zv, rp⟩

/-- mirrors async.c:488-525 -/
def awaitAllOrFail (input : Input) (token preserve : Bool) (co zv rp : Nat → Bool) : Cfg :=
  ⟨input, 0, false, token, false, true, preserve, true, co, zv, rp⟩

/-- mirrors async.c:527-575 -/
def awaitAll (input : Input) (token preserve fillNull : Bool) (co zv rp : Nat → Bool) : Cfg :=
  ⟨input, 0, true, token, true, fillNull, preserve, true, co, zv, rp⟩

/-- With a count of 0 the function returns before the call.
mirrors async.c:577-618 -/
def awaitAnyOfOrFail (input : Input) (count : Int) (token preserve : Bool) (co zv rp : Nat → Bool) :
    Cfg :=
  ⟨input, toInt count, false, token, false, false, preserve, false, co, zv, rp⟩

/-- mirrors async.c:620-670 -/
def awaitAnyOf (input : Input) (count : Int) (token preserve fillNull : Bool)
    (co zv rp : Nat → Bool) : Cfg :=
  ⟨input, toInt count, true, token, true, fillNull, preserve, true, co, zv, rp⟩

/-! ## Tables -/

/-- A value of the results: the placeholder `IS_PTR`, an empty element, a result. -/
inductive Slot where
  | hole
  | null
  | val (v : Nat)
  deriving DecidableEq, Repr

abbrev Table (α : Type) := List (Key × α)

def Table.has {α : Type} (t : Table α) (k : Key) : Bool := t.any fun p => decide (p.1 = k)

/-- `zend_hash_update` -/
def Table.update {α : Type} (t : Table α) (k : Key) (v : α) : Table α :=
  if t.has k then t.map fun p => if p.1 = k then (k, v) else p else t ++ [(k, v)]

/-- `zend_hash_add` -/
def Table.add {α : Type} (t : Table α) (k : Key) (v : α) : Table α :=
  if t.has k then t else t ++ [(k, v)]

/-- `nNextFreeElement` -/
def Table.nextFree {α : Type} (t : Table α) : Int :=
  t.foldl (fun n p => match p.1 with | .int m => max n (m + 1) | .str _ => n) 0

/-- What the callback does with its key. -/
def Table.store {α : Type} (t : Table α) (k : IterKey) (v : α) : Table α :=
  match k with
  | .key k => t.update k v
  | .null => t ++ [(.int t.nextFree, v)]
  | .other => t

/-! ## State -/

/-- `async_await_callback_t` on the event `event`; `id` is its address. -/
structure Wait where
  id : Nat
  event : Nat
  key : IterKey
  deriving DecidableEq, Repr

/-- Where the caller is: before the call, suspended in the wait, suspended in
`async_cancel_awaited_futures`, behind the call. -/
inductive Phase where
  | ready
  | suspended (queued : Bool)
  | draining (queued : Bool)
  | ended (r : Option Err)
  deriving DecidableEq, Repr

/-- The coroutine that walks a Traversable. -/
inductive Walk where
  | idle | walking | done
  deriving DecidableEq, Repr

/-- `error` is the caller's `waker->error`, `touched` says that its waker has a status
during the call, `pending` is `EG(exception)` of the caller.
mirrors async_API.h:28-60 -/
structure St where
  phase : Phase
  error : Option Err
  touched : Bool
  pending : Option Err
  tokenArmed : Bool
  waits : List Wait
  nextId : Nat
  total : Nat
  futuresCount : Nat
  waitingCount : Nat
  resolvedCount : Nat
  successCount : Nat
  results : Table Slot
  errors : Table Err
  walk : Walk
  env : Nat → Option Result
  seen : List Nat
  failures : List Err
  others : List Err
  crashed : Bool

def create : St where
  phase := .ready
  error := none
  touched := false
  pending := none
  tokenArmed := false
  waits := []
  nextId := 0
  total := 0
  futuresCount := 0
  waitingCount := 0
  resolvedCount := 0
  successCount := 0
  results := []
  errors := []
  walk := .idle
  env := fun _ => none
  seen := []
  failures := []
  others := []
  crashed := false

/-- `AWAIT_ITERATOR_IS_FINISHED`.
mirrors async_API.c:296-302 -/
def finished (c : Cfg) (s : St) : Bool :=
  decide (0 < s.waitingCount ∧
    s.waitingCount ≤ (if c.ignoreErrors then s.successCount else s.resolvedCount)) ||
  decide (s.total ≠ 0 ∧ s.total ≤ s.resolvedCount)

/-! ## Resumption -/

/-- How a callback reaches the caller: during the call, while it is suspended, or with
no coroutine bound. -/
inductive Mode where
  | inline
  | event (deferred : Bool)
  | unbound
  deriving DecidableEq, Repr

def Mode.bound : Mode → Bool
  | .unbound => false
  | _ => true

/-- `ZEND_ASYNC_WAKER_CLEAN_EVENTS` -/
def cleanEvents (s : St) : St := { s with waits := [], tokenArmed := false }

/-- The short path of `async_coroutine_resume`, for the coroutine that runs: the second
time it finds a status and cleans the events.
mirrors coroutine.c:805-847 -/
def resumeInline (s : St) (error : Option Err) : St :=
  if s.touched then cleanEvents { s with error := mergeError s.error error }
  else { s with error := mergeError s.error error, touched := true }

/-- mirrors coroutine.c:805-864 -/
def resumeSuspended (s : St) (deferred : Bool) (error : Option Err) : St :=
  match s.phase with
  | .suspended false =>
    let s' := { s with phase := .suspended true, error := mergeError s.error error }
    if deferred then s' else cleanEvents s'
  | .draining false =>
    let s' := { s with phase := .draining true, error := mergeError s.error error }
    if deferred then s' else cleanEvents s'
  | _ => { s with error := mergeError s.error error }

def resume (m : Mode) (s : St) (error : Option Err) : St :=
  match m with
  | .inline => resumeInline s error
  | .event deferred => resumeSuspended s deferred error
  | .unbound => { s with crashed := true }

/-! ## The callback -/

/-- The counters and tables after a call of the callback.
mirrors async_API.c:377-450 -/
def record (c : Cfg) (s : St) (a : Nat) (key : IterKey) : Result → St
  | .failed e =>
    { s with
      resolvedCount := s.resolvedCount + 1
      errors := if c.collectErrors then s.errors.store key e else s.errors
      failures := s.failures ++ [e] }
  | .ok v =>
    { s with
      resolvedCount := s.resolvedCount + 1
      successCount := if c.zvalResult a then s.successCount + 1 else s.successCount
      results := if c.zvalResult a then s.results.store key (.val v) else s.results }

/-- Whether the callback resumes the caller, and with what.
mirrors async_API.c:412-454 -/
def wakes (c : Cfg) (s : St) : Result → Option (Option Err)
  | .failed e =>
    if c.ignoreErrors then (if s.total ≠ 0 ∧ s.total ≤ s.resolvedCount then some none else none)
    else some (some e)
  | .ok _ => if finished c s then some none else none

/-- `async_waiting_callback`. Only a success asks whether there is a coroutine.
mirrors async_API.c:370-456 -/
def waitingCallback (c : Cfg) (m : Mode) (s : St) (a : Nat) (key : IterKey) (r : Result) : St :=
  match wakes c (record c s a key r) r with
  | none => record c s a key r
  | some error =>
    if m.bound || r.isFailed then resume m (record c s a key r) error else record c s a key r

/-- `async_waiting_cancellation_callback`.
mirrors async_API.c:471-516 -/
def cancellationCallback (c : Cfg) (deferred : Bool) (s : St) (key : IterKey) (r : Result) : St :=
  let s' := { s with
    resolvedCount := s.resolvedCount + 1
    errors := match r with
      | .failed e => if c.collectErrors then s.errors.store key e else s.errors
      | .ok _ => s.errors }
  if s'.total ≠ 0 ∧ s'.total ≤ s'.resolvedCount then resumeSuspended s' deferred none else s'

/-! ## The call -/

/-- The element's place in the results.
mirrors async_API.c:565-595, 1010-1027 -/
def prepare (c : Cfg) (s : St) (k : Key) : St :=
  if c.fillNull then { s with results := s.results.add k .null }
  else if c.preserveKeyOrder then { s with results := s.results.add k .hole }
  else s

def register (s : St) (a : Nat) (key : IterKey) : St :=
  { s with waits := s.waits ++ [⟨s.nextId, a, key⟩], nextId := s.nextId + 1 }

/-- `async_throw_error("Expected item to be an Async\\Awaitable object")` -/
def notAwaitable : Err := ⟨.made 0, .other⟩

/-- `async_throw_error("Invalid key type: must be string, long or null")` -/
def invalidKey : Err := ⟨.made 1, .other⟩

/-- The loop over an array; `false` if it ended with an exception.
mirrors async_API.c:984-1066 -/
def arrayLoop (c : Cfg) : List (Key × Item) → St → St × Bool
  | [], s => (s, true)
  | (_, .null) :: rest, s => arrayLoop c rest s
  | (_, .invalid) :: _, s => (s, false)
  | (k, .awaitable a) :: rest, s =>
    match s.env a with
    | some r =>
      let s' := if c.replays a then waitingCallback c .inline (prepare c s k) a (.key k) r else prepare c s k
      if finished c s' then (s', true) else arrayLoop c rest s'
    | none => arrayLoop c rest (register (prepare c s k) a (.key k))

/-- The coroutines among the elements that have not finished. -/
def unfinished (c : Cfg) (s : St) : List (Key × Item) → List (Key × Nat)
  | [] => []
  | (k, .awaitable a) :: rest =>
    if c.isCoroutine a && (s.env a).isNone then (k, a) :: unfinished c s rest
    else unfinished c s rest
  | _ :: rest => unfinished c s rest

/-- Behind the wait. With an exception pending `async_cancel_awaited_futures` returns at
the first coroutine; for a Traversable it does nothing.
mirrors async_API.c:800-872, 1136-1170 -/
def leave (c : Cfg) (s : St) : St :=
  match c.input with
  | .traversable => { s with phase := .ended s.pending }
  | .array items =>
    if c.cancelOnExit && s.pending.isNone && !(unfinished c s items).isEmpty then
      let s' := (unfinished c s items).foldl (fun s p => register s p.2 (.key p.1)) s
      { s' with phase := .draining false }
    else { s with phase := .ended s.pending }

/-- The caller between its loop and its suspension: an error a replay left in the waker
is thrown, and the caller suspends if anything is left to wait for.
mirrors async_API.c:1112-1134 -/
def suspendOrLeave (c : Cfg) (s : St) : St :=
  let s' := { s with pending := s.error, error := none }
  if s'.waits.isEmpty && !s'.tokenArmed then leave c s'
  else if finished c s' then leave c (cleanEvents s')
  else { s' with phase := .suspended false }

def awaitablesOf : List (Key × Item) → List Nat
  | [] => []
  | (_, .awaitable a) :: rest => a :: awaitablesOf rest
  | _ :: rest => awaitablesOf rest

/-- `async_await_futures` up to the suspension.
mirrors async_API.c:891-1170 -/
def call (c : Cfg) (s : St) : St :=
  match c.input with
  | .array [] => { s with phase := .ended none }
  | .array items =>
    let s' := { s with
      tokenArmed := c.token
      total := items.length
      waitingCount := if 0 < c.count then c.count.toNat else items.length
      seen := awaitablesOf items }
    let (s', ok) := arrayLoop c items s'
    if ok then suspendOrLeave c s'
    else
      { cleanEvents s' with
        phase := .ended (some notAwaitable), others := s'.others ++ [notAwaitable] }
  | .traversable =>
    { s with
      tokenArmed := c.token
      waitingCount := if 0 < c.count then c.count.toNat else 0
      walk := .walking
      phase := .suspended false }

/-! ## The walk of a Traversable -/

/-- `await_iterator_dispose`: the number of elements is now known.
mirrors async_API.c:640-673 -/
def iteratorDispose (c : Cfg) (deferred : Bool) (s : St) (error : Option Err) : St :=
  let s := match error with
    | some e => { resumeSuspended s deferred (some e) with others := s.others ++ [e] }
    | none => s
  let s := { s with walk := .done, total := s.futuresCount + s.resolvedCount }
  if (finished c s || decide (s.total = 0)) && decide (s.phase = .suspended false) then
    resumeSuspended s deferred none
  else s

/-- The key under which the callback of an element stores its result. -/
def prepareIter (c : Cfg) (s : St) : IterKey → St
  | .key k => prepare c s k
  | _ => s

/-- `await_iterator_handler`.
mirrors async_API.c:526-631 -/
def iteratorHandler (c : Cfg) (deferred : Bool) (s : St) (key : IterKey) : Item → St
  | .null => s
  | .invalid => iteratorDispose c deferred s (some notAwaitable)
  | .awaitable a =>
    let s := { s with seen := s.seen ++ [a] }
    if s.waits.any fun w => decide (w.event = a) then s
    else if key = .other then iteratorDispose c deferred s (some invalidKey)
    else
      match s.env a with
      | some r =>
        if c.replays a then waitingCallback c .unbound (prepareIter c s key) a key r else prepareIter c s key
      | none =>
        let s := register (prepareIter c s key) a key
        { s with futuresCount := s.futuresCount + 1 }

/-! ## Transitions -/

inductive Lbl where
  | call
  /-- an awaitable settles -/
  | settle (a : Nat) (r : Result) (deferred : Bool)
  /-- the Traversable hands over an element -/
  | yield (key : IterKey) (item : Item) (deferred : Bool)
  /-- the Traversable is at its end -/
  | walkEnd (deferred : Bool)
  /-- the Traversable throws, or its coroutine is cancelled (`none`) -/
  | walkStop (error : Option Err) (deferred : Bool)
  /-- the caller is cancelled, or its cancellation event fires (`token`) -/
  | cancel (e : Err) (token : Bool)
  /-- the scheduler returns to the caller -/
  | run
  deriving DecidableEq, Repr

/-- One callback of the event `a`; a callback that was removed meanwhile is not called. -/
def notifyOne (c : Cfg) (deferred : Bool) (r : Result) (s : St) (w : Wait) : St :=
  if w ∈ s.waits then
    match s.phase with
    | .draining _ => cancellationCallback c deferred { s with waits := s.waits.erase w } w.key r
    | _ => waitingCallback c (.event deferred) { s with waits := s.waits.erase w } w.event w.key r
  else s

def settle (c : Cfg) (deferred : Bool) (s : St) (a : Nat) (r : Result) : St :=
  let s := { s with env := fun b => if b = a then some r else s.env b }
  (s.waits.filter fun w => decide (w.event = a)).foldl (notifyOne c deferred r) s

/-- The caller runs on: what its waker holds is thrown.
mirrors async_API.c:1130-1170 -/
def run (c : Cfg) (s : St) : Option St :=
  match s.phase with
  | .suspended true =>
    some (leave c { cleanEvents s with pending := s.error.or s.pending, error := none })
  | .draining true => some { cleanEvents s with phase := .ended s.error, error := none }
  | _ => none

/-- The callbacks stay until the caller runs.
mirrors coroutine.c:866-999 (a started, unprotected coroutine), 795-864 -/
def cancel (s : St) (e : Err) (token : Bool) : Option St :=
  let error := if token then mergeError s.error (some e) else applyCancellation s.error e
  match s.phase with
  | .suspended _ =>
    some { s with phase := .suspended true, error := error, others := s.others ++ [e] }
  | .draining _ =>
    some { s with phase := .draining true, error := error, others := s.others ++ [e] }
  | _ => none

/-- The walk goes on while the caller is in its wait. -/
def walks (s : St) : Bool :=
  decide (s.walk = .walking) && (match s.phase with | .suspended _ => true | _ => false)

def step (c : Cfg) (s : St) (l : Lbl) : Option St :=
  if s.crashed then none
  else
    match l with
    | .call => if s.phase = .ready then some (call c s) else none
    | .settle a r deferred => if s.env a = none then some (settle c deferred s a r) else none
    | .yield key item deferred =>
      if walks s then some (iteratorHandler c deferred s key item) else none
    | .walkEnd deferred => if walks s then some (iteratorDispose c deferred s none) else none
    | .walkStop error deferred =>
      if walks s then some (iteratorDispose c deferred s error) else none
    | .cancel e token => cancel s e token
    | .run => run c s

def Init (s : St) : Prop := s = create

def lts (c : Cfg) : LTS St Lbl := LTS.ofFn Init (step c)

end PhpAsync.L2.Await
