import PhpAsync.Core.WaitQueue
import PhpAsync.L1Runtime.Coroutine

/-!
# `Async\Pool`

Model of pool.c: the idle resources, `active_count`, `checked_out`, the waiters
with their reservations, the circuit breaker and the healthcheck timer.

Every user hook (factory, destructor, `beforeAcquire`, `beforeRelease`,
healthcheck, the strategy's `reportSuccess` and `reportFailure`) is PHP code: it
may suspend, and it may use the pool again. A call inside a hook is a `Frame`
that says what is left to do; `step` runs a call up to its next hook, its
suspension or its end, and `ret f out` lets the hook of frame `f` return. Between
the two any other step may happen. A hook that is not set is one that returns at
once.

`active_count` is a `uint32_t` and is counted modulo 2³²; `reserved_count` is
the counter of the waiting queue and is read modulo 2³² where the code subtracts
it. The sizes given to the constructor are `zend_long`s cast to `uint32_t`.

Left out: the internal C handlers of pools that PHP code cannot acquire from,
reference counts, and a close during the engine's shutdown, where no exception
object can be made for the waiters.
-/
namespace PhpAsync.L2.Pool

open PhpAsync.Core PhpAsync.L1

/-- mirrors Zend `zend_async_circuit_state_t` as pool.c:1660-1720 reads and sets it -/
inductive Circuit where
  | active | inactive | recovering
  deriving DecidableEq, Repr

/-- A resource; `handle` is `Z_OBJ_HANDLE` when it is an object. -/
structure Resource where
  val : Nat
  handle : Option Nat
  deriving DecidableEq, Repr

/-- `acquire()` with its timeout, or `tryAcquire()`. -/
inductive Mode where
  | acquire (timeoutMs : Int)
  | tryAcquire
  deriving DecidableEq, Repr

/-- A call inside a hook. -/
inductive Frame where
  | beforeAcquire (call : Nat) (mode : Mode) (r : Resource)
  /-- the destructor of a resource `beforeAcquire` refused; `e` has to reach the caller -/
  | rejected (call : Nat) (mode : Mode) (e : Option Exn)
  | factory (call : Nat) (mode : Mode)
  | beforeRelease (call : Nat) (r : Resource)
  | reportFailure (call : Nat) (r : Resource)
  | reportSuccess (call : Nat) (r : Resource)
  /-- the destructor of a resource that is not returned to the pool -/
  | discard (call : Nat) (e : Option Exn)
  /-- the destructor of a resource that came back to a closed pool -/
  | released (call : Nat)
  /-- a destructor in the loop of `close()` -/
  | closing (call : Nat) (e : Option Exn)
  /-- the hook of a tick, with `left` resources to go -/
  | healthcheck (left : Nat) (r : Resource)
  /-- a tick's destructor, for a dead resource -/
  | unhealthy (left : Nat)
  /-- a tick's destructor, for a healthy resource of a pool closed meanwhile -/
  | checkedLate
  /-- a tick's factory -/
  | replace (left : Nat)
  deriving DecidableEq, Repr

/-- What a hook does: it returns something that is not `false`, it returns
`false`, it returns a resource, it throws. A factory that returns `no` has made
nothing and thrown nothing. -/
inductive Outcome where
  | ok
  | no
  | made (r : Resource)
  | threw (e : Exn)
  deriving DecidableEq, Repr

inductive Ev where
  | created (r : Resource)
  | destroyed (r : Resource)
  | acquired (call : Nat) (r : Resource)
  /-- `tryAcquire()` returned null -/
  | nothing (call : Nat)
  | threw (call : Nat) (e : Exn)
  | returned (call : Nat) (e : Option Exn)
  | consumedTwice
  deriving DecidableEq, Repr

structure Wait where
  call : Nat
  timeoutMs : Int
  deriving DecidableEq, Repr

/-- What the constructor fixes. -/
structure Cfg where
  minSize : Nat
  maxSize : Nat
  /-- a healthcheck is set, and its timer runs while the pool is open -/
  healthchecked : Bool
  deriving DecidableEq, Repr

/-- mirrors pool.h:42-66 -/
structure St where
  idle : List Resource
  active : Nat
  checkedOut : List Nat
  waiters : WaitQueue Wait
  wakers : Nat → Waker
  circuit : Circuit
  closed : Bool
  frames : List Frame
  calls : Nat
  log : List Ev

/-! ## Construction -/

def u32 (n : Int) : Nat := (n % 4294967296).toNat

/-- The loop that fills a new pool. The object has no pool yet, so no other call
can get in between.
mirrors pool.c:899-909 -/
def prewarm : Nat → List Outcome → List Resource
  | n + 1, .made r :: outs => r :: prewarm n outs
  | _ + 1, .threw _ :: _ => []
  | n + 1, _ :: outs => prewarm n outs
  | _, _ => []

/-- mirrors pool.c:863-915 -/
def create (c : Cfg) (outs : List Outcome) : St where
  idle := prewarm c.minSize outs
  active := 0
  checkedOut := []
  waiters := .empty
  wakers := fun _ => .parked
  circuit := .active
  closed := false
  frames := []
  calls := 0
  log := (prewarm c.minSize outs).map .created

/-- mirrors pool.c:1435-1500 -/
def construct (min max interval : Int) (healthcheck : Bool) : Except (Nat × String) Cfg :=
  if min < 0 then .error (6, "must be >= 0")
  else if max < 1 then .error (7, "must be >= 1")
  else if max < min then .error (6, "must be <= max")
  else if interval < 0 then .error (8, "must be >= 0")
  else .ok ⟨u32 min, u32 max, healthcheck && decide (u32 interval ≠ 0)⟩

/-! ## Helpers -/

/-- mirrors pool.h:69 -/
def St.total (s : St) : Nat := s.idle.length + s.active

/-- mirrors pool.h:71-75 -/
def unreserved (c : Cfg) (s : St) : Nat := u32 (c.maxSize - s.active - s.waiters.reserved)

def inc (n : Nat) : Nat := u32 (n + 1)

def dec (n : Nat) : Nat := u32 (n - 1)

def emit (s : St) (e : Ev) : St := { s with log := s.log ++ [e] }

/-- The call goes into a hook. -/
def enter (s : St) (f : Frame) : St := { s with frames := f :: s.frames }

/-- `pool_destroy_resource` up to its hook. -/
def destroy (s : St) (r : Resource) (f : Frame) : St := enter (emit s (.destroyed r)) f

def resume (s : St) (w : Nat) (e : Option Exn) : St :=
  { s with wakers := fun i => if i = w then (s.wakers i).resume e else s.wakers i }

/-- mirrors pool.c:249-254 -/
def checkOut (s : St) (r : Resource) : St :=
  match r.handle with
  | some h => if h ∈ s.checkedOut then s else { s with checkedOut := h :: s.checkedOut }
  | none => s

/-- `none` for a resource this pool does not have out.
mirrors pool.c:258-269 -/
def checkIn (s : St) (r : Resource) : Option St :=
  if s.active = 0 then none
  else
    match r.handle with
    | some h =>
      if h ∈ s.checkedOut then some { s with checkedOut := s.checkedOut.erase h } else none
    | none => some s

/-- mirrors pool.c:552-567 -/
def wakeWaiter (s : St) : St :=
  match s.waiters.first (fun _ => false) with
  | none => s
  | some w => resume { s with waiters := s.waiters.grant w } w none

/-- `pool_exception_ends_coroutine`.
mirrors pool.c:241-246 -/
def endsCoroutine (e : Exn) : Bool := e.isCancellation || decide (e = .exit)

/-- What `beforeAcquire` or `beforeRelease` says: `none` when the resource is good,
else the exception that has to reach the caller, if any.
mirrors pool.c:272-375 -/
def verdict : Outcome → Option (Option Exn)
  | .no => some none
  | .threw e => some (if endsCoroutine e then some e else none)
  | _ => none

/-- `EG(exception)` after a destructor, which runs with `e` parked. -/
def pending (e : Option Exn) : Outcome → Option Exn
  | .threw e' => some e'
  | _ => e

/-! ## Acquiring -/

/-- `pool_wait_for_resource` up to the suspension.
mirrors pool.c:493-515 -/
def waitForResource (s : St) (call : Nat) (timeoutMs : Int) : St :=
  let w := s.waiters.table.length
  { s with
    waiters := s.waiters.push ⟨call, timeoutMs⟩
    wakers := fun i => if i = w then .parked else s.wakers i }

/-- Where an attempt ends that may not be made: `acquire()` throws and hands back
an unspent reservation, `tryAcquire()` returns null. -/
def giveUp (s : St) (call : Nat) (mode : Mode) (has : Bool) (e : Exn) : St :=
  match mode with
  | .acquire _ => emit (if has then wakeWaiter s else s) (.threw call e)
  | .tryAcquire => emit s (.nothing call)

/-- Where an attempt ends that finds no place: `acquire()` waits. -/
def noPlace (s : St) (call : Nat) (mode : Mode) : St :=
  match mode with
  | .acquire timeoutMs => waitForResource s call timeoutMs
  | .tryAcquire => emit s (.nothing call)

/-- The `retry` loop of both methods up to the next hook, the suspension or the end.
mirrors pool.c:981-1072,1079-1132 -/
def attempt (c : Cfg) (s : St) (call : Nat) (mode : Mode) (has : Bool) : St :=
  if s.closed then giveUp s call mode has (.pool "Pool is closed")
  else if s.circuit = .inactive then giveUp s call mode has .serviceUnavailable
  else
    let mayServeSelf := has || decide (0 < unreserved c s)
    match s.idle, mayServeSelf with
    | r :: rest, true =>
      enter { s with idle := rest, active := inc s.active } (.beforeAcquire call mode r)
    | _, _ =>
      if u32 s.total < c.maxSize ∧ mayServeSelf = true then
        enter { s with active := inc s.active } (.factory call mode)
      else noPlace s call mode

/-- mirrors pool.c:975-1073 -/
def acquire (c : Cfg) (s : St) (call : Nat) (timeoutMs : Int) : St :=
  attempt c s call (.acquire timeoutMs) false

/-- mirrors pool.c:1075-1133 -/
def tryAcquire (c : Cfg) (s : St) (call : Nat) : St := attempt c s call .tryAcquire false

/-- mirrors pool.c:1010-1024,1101-1113 -/
def afterBeforeAcquire (s : St) (call : Nat) (mode : Mode) (r : Resource) (out : Outcome) : St :=
  match verdict out with
  | none => emit (checkOut s r) (.acquired call r)
  | some e => destroy { s with active := dec s.active } r (.rejected call mode e)

/-- mirrors pool.c:1013-1019,1103-1108 -/
def afterRejected (c : Cfg) (s : St) (call : Nat) (mode : Mode) (e : Option Exn) (out : Outcome) : St :=
  match pending e out with
  | some e => emit (wakeWaiter s) (.threw call e)
  | none => attempt c s call mode false

/-- mirrors pool.c:1034-1054,1120-1132 -/
def afterFactory (s : St) (call : Nat) (mode : Mode) (out : Outcome) : St :=
  match out, mode with
  | .made r, _ => emit (checkOut (emit s (.created r)) r) (.acquired call r)
  | .threw e, _ => emit (wakeWaiter { s with active := dec s.active }) (.threw call e)
  | _, .acquire _ =>
    emit (wakeWaiter { s with active := dec s.active })
      (.threw call (.pool "Failed to create pool resource"))
  | _, .tryAcquire => emit (wakeWaiter { s with active := dec s.active }) (.nothing call)

/-- `pool_wait_for_resource` after the suspension, and the caller's loop.
mirrors pool.c:517-540,1058-1064 -/
def runWaiter (c : Cfg) (s : St) (w : Nat) (x : Wait) : St :=
  let e := (s.wakers w).error
  let had := s.waiters.isReserved w
  let s := if had && decide (s.waiters.reserved = 0) then emit s .consumedTwice else s
  let s := { s with waiters := s.waiters.leave w }
  let s := if had && e.isSome && !s.closed then wakeWaiter s else s
  match e with
  | some e => emit s (.threw x.call e)
  | none => attempt c s x.call (.acquire x.timeoutMs) had

/-! ## Releasing -/

/-- mirrors pool.c:1135-1146 -/
def release (s : St) (call : Nat) (r : Resource) : St :=
  match checkIn s r with
  | none => emit s (.threw call (.pool "Resource is not acquired from this pool"))
  | some s => enter s (.beforeRelease call r)

/-- mirrors pool.c:1146-1157 -/
def afterBeforeRelease (s : St) (call : Nat) (r : Resource) (out : Outcome) : St :=
  let s := { s with active := dec s.active }
  match verdict out with
  | none => enter s (.reportSuccess call r)
  | some none => enter s (.reportFailure call r)
  | some (some e) => destroy s r (.discard call (some e))

/-- mirrors pool.c:1167-1178 -/
def afterReportSuccess (s : St) (call : Nat) (r : Resource) : St :=
  if s.closed then destroy s r (.released call)
  else emit (wakeWaiter { s with idle := s.idle ++ [r] }) (.returned call none)

/-! ## Closing -/

/-- `pool_wake_all_with_exception`, from the tail.
mirrors pool.c:571-580 -/
def wakeAllWithException (s : St) (e : Exn) : St :=
  s.waiters.queue.reverse.foldl
    (fun s w => resume { s with waiters := s.waiters.remove w } w (some e)) s

/-- The loop that destroys the idle resources; the last exception is thrown, the
others are its previous ones.
mirrors pool.c:1212-1238 -/
def drainIdle (s : St) (call : Nat) (e : Option Exn) : St :=
  match s.idle with
  | r :: rest => destroy { s with idle := rest } r (.closing call e)
  | [] => emit s (.returned call e)

/-- mirrors pool.c:1181-1241 -/
def close (s : St) (call : Nat) : St :=
  if s.closed then emit s (.returned call none)
  else
    drainIdle (wakeAllWithException { s with closed := true } (.pool "Pool is closed")) call none

/-! ## Healthcheck -/

/-- The loop over the idle resources, with `left` of them to go, up to its next
hook or to the wakeup behind it.
mirrors pool.c:757-808 -/
def tickLoop (s : St) (left : Nat) : St :=
  match left, s.idle with
  | left + 1, r :: rest =>
    enter { s with idle := rest, active := inc s.active } (.healthcheck left r)
  | _, _ => wakeWaiter s

/-- mirrors pool.c:733-757 -/
def tick (s : St) : St := tickLoop s s.idle.length

/-- mirrors pool.c:767-784 -/
def afterHealthcheck (s : St) (left : Nat) (r : Resource) (out : Outcome) : St :=
  let s := { s with active := dec s.active }
  match out with
  | .no | .threw _ => destroy s r (.unhealthy left)
  | _ =>
    if s.closed then destroy s r .checkedLate else tickLoop { s with idle := s.idle ++ [r] } left

/-- mirrors pool.c:786-793 -/
def afterUnhealthy (c : Cfg) (s : St) (left : Nat) (out : Outcome) : St :=
  match out with
  | .threw _ => wakeWaiter s
  | _ => if u32 s.total < c.minSize then enter s (.replace left) else tickLoop s left

/-- mirrors pool.c:794-803 -/
def afterReplace (s : St) (left : Nat) (out : Outcome) : St :=
  match out with
  | .made r => tickLoop { emit s (.created r) with idle := s.idle ++ [r] } left
  | .threw _ => wakeWaiter s
  | _ => tickLoop s left

/-! ## Steps -/

inductive Lbl where
  | acquire (timeoutMs : Int)
  | tryAcquire
  | release (r : Resource)
  | close
  /-- `activate()`, `deactivate()` and `recover()` -/
  | setCircuit (state : Circuit)
  | tick
  | run (w : Nat)
  | cancel (w : Nat)
  | timeout (w : Nat)
  | ret (f : Frame) (out : Outcome)
  deriving DecidableEq, Repr

/-- The hook of `f`, which has left `frames`, returns with `out`. Only a factory
returns a resource. -/
def resumeFrame (c : Cfg) (s : St) (f : Frame) (out : Outcome) : St :=
  match f with
  | .beforeAcquire call mode r => afterBeforeAcquire s call mode r out
  | .rejected call mode e => afterRejected c s call mode e out
  | .factory call mode => afterFactory s call mode out
  | .beforeRelease call r => afterBeforeRelease s call r out
  | .reportFailure call r => destroy s r (.discard call none)
  | .reportSuccess call r => afterReportSuccess s call r
  | .discard call e => emit (wakeWaiter s) (.returned call (pending e out))
  | .released call => emit s (.returned call (pending none out))
  | .closing call e => drainIdle s call (pending e out)
  | .healthcheck left r => afterHealthcheck s left r out
  | .unhealthy left => afterUnhealthy c s left out
  | .checkedLate => wakeWaiter s
  | .replace left => afterReplace s left out

def isFactory : Frame → Bool
  | .factory .. | .replace .. => true
  | _ => false

def Outcome.isMade : Outcome → Bool
  | .made _ => true
  | _ => false

def newCall (s : St) : St := { s with calls := s.calls + 1 }

def parkedOn (s : St) (w : Nat) : Option Wait := s.waiters.live? w

/-- The transitions. `run` is enabled once the coroutine has been woken, at any
later time; `cancel` and `timeout` reach a coroutine that still waits or is
already woken. A cancellation inside a hook is an exception the hook throws. -/
def step (c : Cfg) (s : St) : Lbl → Option St
  | .acquire timeoutMs => some (acquire c (newCall s) s.calls timeoutMs)
  | .tryAcquire => some (tryAcquire c (newCall s) s.calls)
  | .release r => some (release (newCall s) s.calls r)
  | .close => some (close (newCall s) s.calls)
  | .setCircuit state => some { s with circuit := state }
  | .tick => if c.healthchecked && !s.closed then some (tick s) else none
  | .run w =>
    if (s.wakers w).queued then (parkedOn s w).map fun x => runWaiter c s w x else none
  | .cancel w =>
    (parkedOn s w).map fun _ =>
      { s with wakers := fun i => if i = w then (s.wakers i).cancel else s.wakers i }
  | .timeout w =>
    (parkedOn s w).bind fun x =>
      if 0 < x.timeoutMs then some (resume s w (some .timeout)) else none
  | .ret f out =>
    if f ∈ s.frames ∧ (out.isMade = true → isFactory f = true) then
      some (resumeFrame c { s with frames := s.frames.erase f } f out)
    else none

def Init (c : Cfg) (s : St) : Prop :=
  ∃ min max interval healthcheck outs,
    construct min max interval healthcheck = .ok c ∧ s = create c outs

def lts (c : Cfg) : LTS St Lbl := LTS.ofFn (Init c) (step c)

end PhpAsync.L2.Pool
