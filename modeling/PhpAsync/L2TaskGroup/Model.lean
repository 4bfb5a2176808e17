import PhpAsync.Core.LTS
import PhpAsync.Core.Loop
import PhpAsync.Core.SwapRemove
import PhpAsync.L1Runtime.Coroutine

/-!
# `Async\TaskGroup` and `Async\TaskSet`

Model of task_group.c: the ordered table of tasks, the counters, the coroutines
suspended in `spawn()`, the vector of waiters (futures of `all()`, `any()` and
`race()`, suspended iterators), and the flags of the group.

A task's coroutine is in `coros` from its start until its completion callback,
which is one step, as are the methods; a coroutine that suspends inside a method
(a spawner in `slot_waiters`, an iterator) runs on in a step of its own. A trigger
reaches its coroutine at any later time; the model puts the coroutine into the run
queue at once and lets it run later.

`task_group_waiter_event_remove` finds a waiter by its address; inside the loops
that is the position the loop is at. A notified iterator leaves the vector at once,
unless the notification comes from inside the scheduler (`deferred`), which cleans
the events of the coroutines it resumed later.

An entry carries the number of the `spawn()` call that made it, which the code does
not have: results say whose outcome they are. Of two entries under one key, a
lookup finds the one added last.

Left out: the destruction of the group object, `awaitCompletion()`, the
`EXCEPTION_HANDLED` flag, arguments of tasks, and reference counts.
-/
namespace PhpAsync.L2.TaskGroup

open PhpAsync.Core PhpAsync.L1

/-- `string|int`: the key `"0"` is not the key `0`. -/
inductive Key where
  | str (s : String)
  | int (n : Int)
  deriving DecidableEq, Repr

/-- A value of the table: an entry in one of three states, or a result.
mirrors task_group.c:24-42, task_group.h:69-75 -/
inductive Task where
  | pending
  | running
  | error (e : Exn)
  | done (v : Nat)
  deriving DecidableEq, Repr

/-- mirrors task_group.c:278-281 -/
def Task.isPending : Task → Bool
  | .pending => true
  | _ => false

/-- mirrors task_group.c:283-286 -/
def Task.isError : Task → Bool
  | .error _ => true
  | _ => false

/-- mirrors task_group.c:288-291 -/
def Task.isCompleted : Task → Bool
  | .done _ => true
  | _ => false

def Task.isRunning : Task → Bool
  | .running => true
  | _ => false

def Task.isSettled (t : Task) : Bool := t.isCompleted || t.isError

structure Entry where
  key : Key
  call : Nat
  task : Task
  deriving DecidableEq, Repr

/-- A task's coroutine with its completion callback.
mirrors task_group.c:317-322 -/
structure Coro where
  call : Nat
  key : Key
  deriving DecidableEq, Repr

/-- How a task's coroutine ends. -/
inductive Outcome where
  | result (v : Nat)
  | error (e : Exn)
  deriving DecidableEq, Repr

def Outcome.task : Outcome → Task
  | .result v => .done v
  | .error e => .error e

/-- A coroutine suspended in `spawn()`; `fired` says that its trigger was. -/
structure Spawner where
  call : Nat
  key : Key
  fired : Bool
  waker : Waker
  deriving DecidableEq, Repr

/-- mirrors task_group.c:45-52 -/
inductive Kind where
  | race
  | any
  | all
  | allIgnoreErrors
  | iterator (it : Nat)
  deriving DecidableEq, Repr

structure Waiter where
  id : Nat
  kind : Kind
  deriving DecidableEq, Repr

/-- `ready`: it has a current element; `parked`: its coroutine waits on waiter `w`. -/
inductive IterState where
  | ready
  | parked (w : Nat) (waker : Waker)
  | ended
  | failed
  deriving DecidableEq, Repr

/-- mirrors task_group.h:94-103 -/
structure Iter where
  pos : Nat
  state : IterState
  deriving DecidableEq, Repr

/-- What a future is settled with: an array of results, a composite exception, the
outcome of one task. -/
inductive Answer where
  | results (l : List Entry)
  | composite (l : List Entry)
  | one (e : Entry)
  deriving DecidableEq, Repr

/-- Why a method throws. -/
inductive Fail where
  | closed
  | completed
  | duplicate (key : Key)
  | closedScope
  | emptyRace
  | emptyAny
  | exn (e : Exn)
  deriving DecidableEq, Repr

/-- The text of the errors the code itself throws.
mirrors task_group.c:1431,1436,1450-1452,1603,1647, async_API.c:104 -/
def Fail.message : Fail → Option String
  | .closed => some "Cannot spawn tasks on a closed TaskGroup"
  | .completed => some "Cannot spawn tasks on a completed TaskGroup"
  | .duplicate (.str k) => some ("Duplicate key \"" ++ k ++ "\" in TaskGroup")
  | .duplicate (.int n) => some ("Duplicate key " ++ toString n ++ " in TaskGroup")
  | .closedScope => some "Cannot spawn a coroutine in a closed scope"
  | .emptyRace => some "Cannot race on an empty TaskGroup"
  | .emptyAny => some "Cannot call any() on an empty TaskGroup"
  | .exn _ => none

inductive Ev where
  | started (call : Nat)
  | answered (id : Nat) (a : Answer)
  | yielded (it : Nat) (e : Entry)
  | ended (it : Nat)
  | failed (it : Nat) (e : Exn)
  | threw (call : Nat) (f : Fail)
  | finallyCalled (handler : Nat)
  /-- the callbacks of the group's own event -/
  | notified
  deriving DecidableEq, Repr

/-- What the constructor fixes. -/
structure Cfg where
  concurrency : Nat
  queueLimit : Nat
  taskSet : Bool
  deriving DecidableEq, Repr

/-- mirrors task_group.h:41-91 -/
structure St where
  tasks : List Entry
  coros : List Coro
  /-- `active_coroutines`, an `int32_t` -/
  active : Int
  /-- `pending_count`, a `uint32_t` -/
  pendingCount : Nat
  spawners : List Spawner
  waiters : List Waiter
  iters : List Iter
  isSealed : Bool
  isCompleted : Bool
  eventClosed : Bool
  scopeClosed : Bool
  finallyHandlers : List Nat
  /-- the coroutines that were spawned for handlers, with those each has still to call -/
  due : List (List Nat)
  nextKey : Nat
  calls : Nat
  log : List Ev

/-! ## Construction -/

/-- mirrors task_group.c:1349-1390 -/
def construct (concurrency : Int) (queueLimit : Option Int) (taskSet : Bool) :
    Except (Nat × String) Cfg :=
  if concurrency < 0 ∨ 4294967295 < concurrency then
    .error (1, "must be between 0 and 4294967295")
  else
    match queueLimit with
    | some q =>
      if q < 0 ∨ 4294967295 < q then .error (2, "must be between 0 and 4294967295")
      else .ok ⟨concurrency.toNat, q.toNat, taskSet⟩
    | none =>
      if concurrency = 0 then .ok ⟨0, 0, taskSet⟩
      else if 2147483647 < concurrency then .ok ⟨concurrency.toNat, 4294967295, taskSet⟩
      else .ok ⟨concurrency.toNat, concurrency.toNat * 2, taskSet⟩

/-- mirrors task_group.c:414-440 -/
def create : St where
  tasks := []
  coros := []
  active := 0
  pendingCount := 0
  spawners := []
  waiters := []
  iters := []
  isSealed := false
  isCompleted := false
  eventClosed := false
  scopeClosed := false
  finallyHandlers := []
  due := []
  nextKey := 0
  calls := 0
  log := []

/-! ## Helpers -/

def emit (s : St) (e : Ev) : St := { s with log := s.log ++ [e] }

/-- The cast `(int32_t)` of a `uint32_t`. -/
def i32 (n : Nat) : Int := if n < 2147483648 then n else n - 4294967296

/-- mirrors task_group.c:300-311 -/
def St.hasPending (s : St) : Bool := s.tasks.any fun e => e.task.isPending

/-- `task_group_all_settled(group) && !task_group_has_pending(group)`.
mirrors task_group.c:294-297 -/
def St.settled (s : St) : Bool := decide (s.active = 0) && !s.hasPending

/-- mirrors task_group.c:1028-1039 -/
def St.hasErrors (s : St) : Bool := s.tasks.any fun e => e.task.isError

/-- mirrors task_group.c:1004-1026 -/
def collectResults (s : St) : List Entry := s.tasks.filter fun e => e.task.isCompleted

/-- mirrors task_group.c:1041-1055 -/
def collectErrors (s : St) : List Entry := s.tasks.filter fun e => e.task.isError

/-- mirrors task_group.c:749-752 -/
def hasSlot (c : Cfg) (s : St) : Bool :=
  decide (c.concurrency = 0) || decide (s.active < i32 c.concurrency)

/-- mirrors task_group.c:755-758 -/
def queueIsFull (c : Cfg) (s : St) : Bool :=
  decide (0 < c.queueLimit) && decide (c.queueLimit ≤ s.pendingCount)

def hasKey (key : Key) (l : List Entry) : Bool := l.any fun e => decide (e.key = key)

/-- The entry found under `key` takes the state `t`. -/
def settle (key : Key) (t : Task) : List Entry → List Entry
  | [] => []
  | e :: es =>
    if hasKey key es then e :: settle key t es
    else if e.key = key then { e with task := t } :: es
    else e :: es

/-- `zend_hash_del`. -/
def deleteKey (key : Key) : List Entry → List Entry
  | [] => []
  | e :: es =>
    if hasKey key es then e :: deleteKey key es
    else if e.key = key then es
    else e :: es

/-- mirrors task_group.c:619-644 -/
def consume (c : Cfg) (s : St) (key : Key) : St :=
  if c.taskSet then { s with tasks := deleteKey key s.tasks } else s

/-- mirrors task_group.c:647-652 -/
def consumeAll (c : Cfg) (s : St) : St := if c.taskSet then { s with tasks := [] } else s

def Spawner.fire (sp : Spawner) : Spawner := { sp with fired := true, waker := sp.waker.resume none }

/-- mirrors task_group.c:761-775 -/
def fireOneSlotWaiter (s : St) : St :=
  match s.spawners with
  | [] => s
  | sp :: rest => { s with spawners := sp.fire :: rest }

/-- mirrors task_group.c:779-789 -/
def fireAllSlotWaiters (s : St) : St := { s with spawners := s.spawners.map Spawner.fire }

/-- The waiter at position `i` leaves the vector.
mirrors task_group.c:176-202 -/
def removeAt (s : St) (i : Nat) : St := { s with waiters := swapRemove s.waiters i }

/-- The same for a waiter that is somewhere in the vector, if it still is. -/
def removeWaiter (s : St) (id : Nat) : St :=
  match s.waiters.findIdx? fun w => decide (w.id = id) with
  | none => s
  | some i => removeAt s i

def setIter (s : St) (it : Nat) (x : Iter) : St := { s with iters := s.iters.set it x }

/-- `ZEND_ASYNC_CALLBACKS_NOTIFY` on the waiter at position `i`, of iterator `it`; the
second component says whether it has left the vector.
mirrors coroutine.c:829-861 -/
def notifyIterator (deferred : Bool) (s : St) (i it : Nat) : St × Bool :=
  match s.iters[it]? with
  | some ⟨pos, .parked w waker⟩ =>
    if waker.queued then (s, false)
    else
      let s := setIter s it ⟨pos, .parked w (waker.resume none)⟩
      if deferred then (s, false) else (removeAt s i, true)
  | _ => (s, false)

/-! ## Starting tasks -/

/-- The first pending entry, and the table in which it runs. -/
def startFirst : List Entry → Option (Entry × List Entry)
  | [] => none
  | e :: es =>
    if e.task.isPending then some (e, { e with task := .running } :: es)
    else (startFirst es).map fun p => (p.1, e :: p.2)

/-- One round of `task_group_drain`. A closed scope refuses the coroutine, and the
loop ends with the exception.
mirrors task_group.c:791-845,860-888 -/
def drainStep (c : Cfg) (s : St) : Option St :=
  if hasSlot c s && !s.scopeClosed then
    (startFirst s.tasks).map fun p =>
      fireOneSlotWaiter { s with
        tasks := p.2
        pendingCount := (s.pendingCount + 4294967295) % 4294967296
        coros := s.coros ++ [⟨p.1.call, p.1.key⟩]
        active := s.active + 1
        log := s.log ++ [.started p.1.call] }
  else none

/-- mirrors task_group.c:848-889 -/
def drain (c : Cfg) (s : St) : St := Loop.run (drainStep c) s.tasks.length s

/-- mirrors task_group.c:1491-1506,818-844 -/
def insert (c : Cfg) (s : St) (call : Nat) (key : Key) : St :=
  if hasSlot c s then
    if s.scopeClosed then emit s (.threw call .closedScope)
    else
      { s with
        tasks := s.tasks ++ [⟨key, call, .running⟩]
        coros := s.coros ++ [⟨call, key⟩]
        active := s.active + 1
        log := s.log ++ [.started call] }
  else
    { s with
      tasks := s.tasks ++ [⟨key, call, .pending⟩]
      pendingCount := (s.pendingCount + 1) % 4294967296 }

/-- The back-pressure loop up to its suspension, or the insertion behind it.
mirrors task_group.c:1461-1506 -/
def backPressure (c : Cfg) (s : St) (call : Nat) (key : Key) : St :=
  if !hasSlot c s && queueIsFull c s then
    { s with spawners := s.spawners ++ [⟨call, key, false, .parked⟩] }
  else insert c s call key

/-- mirrors task_group.c:1421-1507 -/
def doSpawn (c : Cfg) (s : St) (call : Nat) (key : Key) : St :=
  if s.isSealed then emit s (.threw call .closed)
  else if s.isCompleted then emit s (.threw call .completed)
  else if hasKey key s.tasks then emit s (.threw call (.duplicate key))
  else backPressure c s call key

/-- mirrors task_group.c:1509-1528 -/
def spawn (c : Cfg) (s : St) : St :=
  doSpawn c { s with nextKey := (s.nextKey + 1) % 4294967296, calls := s.calls + 1 } s.calls
    (.int s.nextKey)

/-- mirrors task_group.c:1530-1552 -/
def spawnWithKey (c : Cfg) (s : St) (key : Key) : St :=
  doSpawn c { s with calls := s.calls + 1 } s.calls key

/-- The spawner runs on behind its suspension. The key is not looked up again.
mirrors task_group.c:1468-1486 -/
def runSpawner (c : Cfg) (s : St) (sp : Spawner) : St :=
  let s := { s with spawners := s.spawners.erase sp }
  match sp.waker.error with
  | some e => emit s (.threw sp.call (.exn e))
  | none =>
    if s.isSealed then emit s (.threw sp.call .closed)
    else if s.isCompleted then emit s (.threw sp.call .completed)
    else backPressure c s sp.call sp.key

/-! ## Completion -/

/-- One round of the loop of `task_group_try_complete` over the waiters, which is at
position `p.2`. Only `ALL_IGNORE_ERRORS` stays at the position it has removed its
waiter from; an iterator and a `race()` move on by two.
mirrors task_group.c:665-717 -/
def resolveStep (c : Cfg) (deferred hasErrors : Bool) (p : St × Nat) : Option (St × Nat) :=
  let s := p.1
  let i := p.2
  s.waiters[i]?.map fun w =>
    match w.kind with
    | .all =>
      let a := if hasErrors then .composite (collectErrors s) else .results (collectResults s)
      (removeAt (consumeAll c (emit s (.answered w.id a))) i, i + 1)
    | .allIgnoreErrors =>
      (removeAt (consumeAll c (emit s (.answered w.id (.results (collectResults s))))) i, i)
    | .any => (removeAt (emit s (.answered w.id (.composite (collectErrors s)))) i, i + 1)
    | .iterator it => ((notifyIterator deferred s i it).1, i + 2)
    | .race => (s, i + 2)

def resolveWaiters (c : Cfg) (deferred : Bool) (s : St) : St :=
  (Loop.run (resolveStep c deferred s.hasErrors) s.waiters.length (s, 0)).1

/-- What `task_group_try_complete` does behind its loop. A coroutine is spawned for the
handlers, in a child of the group's scope.
mirrors task_group.c:719-746, coroutine.c:1270-1313 -/
def finish (s : St) : St :=
  { s with
    isCompleted := s.isCompleted || s.isSealed
    eventClosed := true
    finallyHandlers := []
    due := if s.finallyHandlers = [] then s.due else s.due ++ [s.finallyHandlers]
    log := s.log ++ [.notified] }

/-- mirrors task_group.c:654-747 -/
def tryComplete (c : Cfg) (deferred : Bool) (s : St) : St :=
  if decide (0 < s.active) || s.hasPending then s else finish (resolveWaiters c deferred s)

/-- One round of the loop over the waiters after a task has ended as `e`;
`waiter_notify_index` is `p.2`.
mirrors task_group.c:955-991 -/
def notifyStep (c : Cfg) (deferred : Bool) (e : Entry) (p : St × Nat) : Option (St × Nat) :=
  let s := p.1
  let i := p.2
  s.waiters[i]?.map fun w =>
    match w.kind with
    | .race => (removeAt (consume c (emit s (.answered w.id (.one e))) e.key) i, i)
    | .any =>
      if e.task.isError then (s, i + 1)
      else (removeAt (emit s (.answered w.id (.one e))) i, i)
    | .all | .allIgnoreErrors => (s, i + 1)
    | .iterator it =>
      let q := notifyIterator deferred s i it
      (q.1, if q.2 then i else i + 1)

def notifyWaiters (c : Cfg) (deferred : Bool) (e : Entry) (s : St) : St :=
  (Loop.run (notifyStep c deferred e) s.waiters.length (s, 0)).1

/-- mirrors task_group.c:891-998 -/
def onCoroutineComplete (c : Cfg) (deferred : Bool) (s : St) (co : Coro) (out : Outcome) : St :=
  let s := { s with
    coros := s.coros.erase co
    tasks := settle co.key out.task s.tasks
    active := s.active - 1 }
  tryComplete c deferred (notifyWaiters c deferred ⟨co.key, co.call, out.task⟩ (drain c s))

/-! ## Futures -/

/-- A pending future; one that is settled at once does not stay in the vector. -/
def addWaiter (s : St) (id : Nat) (kind : Kind) : St := { s with waiters := s.waiters ++ [⟨id, kind⟩] }

/-- mirrors task_group.c:1554-1593 -/
def all (c : Cfg) (s : St) (id : Nat) (ignoreErrors : Bool) : St :=
  if s.settled then
    if !ignoreErrors && s.hasErrors then
      consumeAll c (emit s (.answered id (.composite (collectErrors s))))
    else consumeAll c (emit s (.answered id (.results (collectResults s))))
  else addWaiter s id (if ignoreErrors then .allIgnoreErrors else .all)

/-- mirrors task_group.c:1595-1637 -/
def race (c : Cfg) (s : St) (id : Nat) : St :=
  if s.tasks.isEmpty then emit s (.threw id .emptyRace)
  else
    match s.tasks.find? fun e => e.task.isSettled with
    | some e => consume c (emit s (.answered id (.one e))) e.key
    | none => addWaiter s id .race

/-- mirrors task_group.c:1639-1682 -/
def any (c : Cfg) (s : St) (id : Nat) : St :=
  if s.tasks.isEmpty then emit s (.threw id .emptyAny)
  else
    match s.tasks.find? fun e => e.task.isCompleted with
    | some e => consume c (emit s (.answered id (.one e))) e.key
    | none =>
      if s.settled then emit s (.answered id (.composite (collectErrors s)))
      else addWaiter s id .any

/-! ## Iteration -/

/-- The iterator gets a current element; in a set the entry goes.
mirrors task_group.c:1109-1141,1165-1198 -/
def yieldEntry (c : Cfg) (s : St) (it : Nat) (pos : Nat) (e : Entry) : St :=
  let s := emit s (.yielded it e)
  if c.taskSet then consume c (setIter s it ⟨pos, .ready⟩) e.key
  else setIter s it ⟨pos + 1, .ready⟩

/-- mirrors task_group.c:1213-1240 -/
def parkIterator (s : St) (it : Nat) (pos : Nat) : St :=
  setIter { s with waiters := s.waiters ++ [⟨s.calls, .iterator it⟩], calls := s.calls + 1 } it
    ⟨pos, .parked s.calls .parked⟩

/-- mirrors task_group.c:1143-1250 -/
def moveForward (c : Cfg) (s : St) (it : Nat) (pos : Nat) : St :=
  match s.tasks[pos]? with
  | some e => if e.task.isSettled then yieldEntry c s it pos e else parkIterator s it pos
  | none =>
    if s.isSealed && s.settled then setIter (emit s (.ended it)) it ⟨pos, .ended⟩
    else parkIterator s it pos

/-- mirrors task_group.c:1252-1293 -/
def iterate (c : Cfg) (s : St) : St :=
  moveForward c { s with iters := s.iters ++ [⟨0, .ready⟩] } s.iters.length 0

/-- The iterator runs on behind its suspension.
mirrors task_group.c:1240-1249 -/
def runIterator (c : Cfg) (s : St) (it pos w : Nat) (waker : Waker) : St :=
  let s := removeWaiter s w
  match waker.error with
  | some e => setIter (emit s (.failed it e)) it ⟨pos, .failed⟩
  | none => moveForward c s it pos

/-! ## Closing -/

/-- mirrors task_group.c:1750-1766 -/
def close (c : Cfg) (deferred : Bool) (s : St) : St :=
  if s.isSealed then s
  else tryComplete c deferred (fireAllSlotWaiters { s with isSealed := true })

/-- `scopeDone`: the scope has nothing left to run, and closes; otherwise its
coroutines are cancelled, and run on to their end.
mirrors task_group.c:1709-1748, scope.c:955-1004 -/
def cancel (c : Cfg) (deferred scopeDone : Bool) (s : St) : St :=
  if s.isSealed then s
  else
    let s := fireAllSlotWaiters { s with isSealed := true }
    tryComplete c deferred { s with scopeClosed := s.scopeClosed || scopeDone }

/-- mirrors task_group.c:1860-1897 -/
def finally_ (s : St) (handler : Nat) : St :=
  if s.isCompleted then emit s (.finallyCalled handler)
  else { s with finallyHandlers := s.finallyHandlers ++ [handler] }

/-! ## Steps -/

inductive Lbl where
  | spawn
  | spawnWithKey (key : Key)
  | runSpawner (call : Nat)
  | cancelSpawner (call : Nat)
  | complete (call : Nat) (out : Outcome) (deferred : Bool)
  | all (ignoreErrors : Bool)
  | race
  | any
  /-- the future of a waiter is freed -/
  | drop (id : Nat)
  | iterate
  | next (it : Nat)
  | runIterator (it : Nat)
  | cancelIterator (it : Nat)
  /-- the scheduler cleans the events of an iterator it has resumed -/
  | cleanIterator (it : Nat)
  | close (deferred : Bool)
  | cancel (deferred scopeDone : Bool)
  | finally_
  /-- a coroutine of handlers calls the next one -/
  | callHandler (k : Nat)
  /-- it is cancelled, as `dispose()` does, or could not be spawned, or a handler exits -/
  | cancelHandlers (k : Nat)
  /-- `dispose()`, or the owner of an external scope, closes the scope -/
  | closeScope
  deriving DecidableEq, Repr

def newCall (s : St) : St := { s with calls := s.calls + 1 }

def Kind.isIterator : Kind → Bool
  | .iterator _ => true
  | _ => false

/-- The transitions. A suspended coroutine runs at any time after it was woken; a
cancellation reaches it before or after that. -/
def step (c : Cfg) (s : St) : Lbl → Option St
  | .spawn => some (spawn c s)
  | .spawnWithKey key => some (spawnWithKey c s key)
  | .runSpawner call =>
    (s.spawners.find? fun sp => decide (sp.call = call) && sp.waker.queued).map (runSpawner c s)
  | .cancelSpawner call =>
    if s.spawners.any fun sp => decide (sp.call = call) then
      some { s with
        spawners := s.spawners.map fun sp =>
          if sp.call = call then { sp with waker := sp.waker.cancel } else sp }
    else none
  | .complete call out deferred =>
    (s.coros.find? fun co => decide (co.call = call)).map fun co =>
      onCoroutineComplete c deferred s co out
  | .all ignoreErrors => some (all c (newCall s) s.calls ignoreErrors)
  | .race => some (race c (newCall s) s.calls)
  | .any => some (any c (newCall s) s.calls)
  | .drop id =>
    if s.waiters.any fun w => decide (w.id = id) && !w.kind.isIterator then some (removeWaiter s id)
    else none
  | .iterate => some (iterate c s)
  | .next it =>
    match s.iters[it]? with
    | some ⟨pos, .ready⟩ => some (moveForward c s it pos)
    | _ => none
  | .runIterator it =>
    match s.iters[it]? with
    | some ⟨pos, .parked w waker⟩ =>
      if waker.queued then some (runIterator c s it pos w waker) else none
    | _ => none
  | .cancelIterator it =>
    match s.iters[it]? with
    | some ⟨pos, .parked w waker⟩ => some (setIter s it ⟨pos, .parked w waker.cancel⟩)
    | _ => none
  | .cleanIterator it =>
    match s.iters[it]? with
    | some ⟨_, .parked w waker⟩ => if waker.queued then some (removeWaiter s w) else none
    | _ => none
  | .close deferred => some (close c deferred s)
  | .cancel deferred scopeDone => some (cancel c deferred scopeDone s)
  | .finally_ => some (finally_ (newCall s) s.calls)
  | .callHandler k =>
    match s.due[k]? with
    | some (h :: hs) => some (emit { s with due := s.due.set k hs } (.finallyCalled h))
    | _ => none
  | .cancelHandlers k => if k < s.due.length then some { s with due := s.due.set k [] } else none
  | .closeScope => some { s with scopeClosed := true }

def Init (c : Cfg) (s : St) : Prop :=
  (∃ concurrency queueLimit taskSet, construct concurrency queueLimit taskSet = .ok c) ∧ s = create

def lts (c : Cfg) : LTS St Lbl := LTS.ofFn (Init c) (step c)

end PhpAsync.L2.TaskGroup
