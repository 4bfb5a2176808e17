import PhpAsync.Core.WaitQueue
import PhpAsync.L1Runtime.CircularBuffer
import PhpAsync.L1Runtime.Coroutine

/-!
# `Async\Channel`: the code

Model of channel.c. A channel is a buffer of `capacity` values, or for
capacity 0 one rendezvous slot, with a queue of waiting receivers and one of
waiting senders (`WaitQueue`). A woken coroutine stays queued with a
reservation until it runs; a pending `recvAsync()` future is served in place.

Every call of a channel method has a number (`calls`). A coroutine is in at
most one channel call at a time, so the call stands for the coroutine; a value
carries the number of the call that sent it. A suspended call is the waiter it
is parked on: `channel_wait_for` is cut at `ZEND_ASYNC_SUSPEND` into the part
before (`waitForData`, `waitForSend`) and the part after (`resumeReceiver`,
`resumeSender`), and each method's `goto retry` loop is the function of its
body (`receive`, `transmit`), entered again when the waiter runs.

What the program can observe goes into `log`, oldest first: values accepted,
delivered and rolled back, results and exceptions of calls. `granted` events
and `fault`s (a failed `ZEND_ASSERT`, a push into a full ring, an empty take)
are written there too.

Left out: reference counts and memory, the callbacks other awaiters put on the
channel's event, the scope binding (its only effect is a `close`).
-/
namespace PhpAsync.L2.Channel

open PhpAsync.Core PhpAsync.L1

inductive Via where
  | send | sendAsync
  deriving DecidableEq, Repr

/-- A value on its way, with the call that sent it. -/
structure Msg (V : Type) where
  call : Nat
  via : Via
  val : V
  deriving DecidableEq, Repr

inductive RecvKind where
  | recv | foreach | future
  deriving DecidableEq, Repr

/-- A queued receiver. For a future, `call` is also the future. -/
structure RecvWait where
  call : Nat
  kind : RecvKind
  token : Option Nat
  deriving DecidableEq, Repr

/-- A queued sender; with `delivering` set its value is already in the slot. -/
structure SendWait (V : Type) where
  msg : Msg V
  token : Option Nat
  delivering : Bool
  deriving DecidableEq, Repr

inductive Side where
  | recv | send
  deriving DecidableEq, Repr

/-- A future returned by `recvAsync()`; `pending` carries `extra->waiter`. -/
inductive Future (V : Type) where
  | absent
  | pending (waiter : Option Nat)
  | completed (m : Msg V)
  | rejected (e : Exn)
  | disposed
  deriving DecidableEq, Repr

inductive Rollback where
  | close | cancelledSender
  deriving DecidableEq, Repr

inductive Fault where
  | receiverReleasedTwice | senderReleasedTwice | slotFilled | reservationOutlivedValue
  | bufferFull | emptyTake
  deriving DecidableEq, Repr

inductive Ev (V : Type) where
  | accepted (m : Msg V)
  | received (call : Nat) (m : Msg V)
  | element (call : Nat) (m : Msg V)
  | completed (future : Nat) (m : Msg V)
  | rejected (future : Nat) (e : Exn)
  | rolledBack (m : Msg V) (why : Rollback)
  | sent (call : Nat)
  | refused (call : Nat)
  | threw (side : Side) (call : Nat) (e : Exn)
  | ended (call : Nat)
  | granted (side : Side) (w : Nat)
  | fault (f : Fault)
  deriving DecidableEq, Repr

/-- What the reactor answers to the n-th request for a timer. -/
inductive TimerAnswer where
  | notCreated | notStarted | started
  deriving DecidableEq, Repr

/-- `armed` is `deadlock_timer != NULL`, `registered` membership in
`ASYNC_G(deadlock_channels)`. -/
structure Timer where
  armed : Bool
  reason : CloseReason
  registered : Bool
  made : Nat
  answers : Nat → TimerAnswer

/-- What the two sides are matched by: the values, the waiters and the futures
that wait. -/
structure Chan (V : Type) where
  capacity : Nat
  buffer : List (Msg V)
  /-- `rendezvous_value`, `none` when `rendezvous_has_value` is false -/
  rendezvous : Option (Msg V)
  committed : Bool
  receivers : WaitQueue RecvWait
  senders : WaitQueue (SendWait V)
  closed : Bool
  futures : Nat → Future V
  calls : Nat

/-- mirrors channel.h:55-107 -/
structure St (V : Type) extends Chan V where
  noProducerTimeoutMs : Nat
  noConsumerTimeoutMs : Nat
  hardTimeouts : Bool
  closeReason : CloseReason
  timer : Timer
  wakers : Side → Nat → Waker
  /-- cancellation tokens that have fired -/
  fired : Nat → Bool
  log : List (Ev V)

variable {V : Type}

/-! ## Construction -/

def int32Max : Int := 2147483647

/-- The range check of constructor argument `arg`. -/
def checkArg (arg : Nat) (n : Int) : Except (Nat × String) Nat :=
  if n < 0 ∨ int32Max < n then .error (arg, "must be between 0 and 2147483647") else .ok n.toNat

def fresh (capacity noProducer noConsumer : Nat) (hard : Bool) (answers : Nat → TimerAnswer) :
    St V where
  capacity := capacity
  noProducerTimeoutMs := noProducer
  noConsumerTimeoutMs := noConsumer
  hardTimeouts := hard
  buffer := []
  rendezvous := none
  committed := false
  receivers := .empty
  senders := .empty
  closed := false
  closeReason := .explicit
  timer := ⟨false, .explicit, false, 0, answers⟩
  wakers := fun _ _ => .parked
  futures := fun _ => .absent
  fired := fun _ => false
  calls := 0
  log := []

/-- mirrors channel.c:879-907,1067-1111 -/
def construct (capacity noProducer noConsumer : Int) (hard : Bool)
    (answers : Nat → TimerAnswer) : Except (Nat × String) (St V) := do
  let c ← checkArg 1 capacity
  let p ← checkArg 2 noProducer
  let q ← checkArg 3 noConsumer
  return fresh c p q hard answers

/-! ## Helpers -/

/-- mirrors channel.c:145-148 -/
def Chan.isBuffered (c : Chan V) : Bool := decide (0 < c.capacity)

/-- mirrors channel.c:150-156 -/
def Chan.isEmpty (c : Chan V) : Bool :=
  if c.isBuffered then c.buffer.isEmpty else c.rendezvous.isNone

/-- mirrors channel.c:166-172 -/
def Chan.count (c : Chan V) : Nat :=
  if c.isBuffered then c.buffer.length else if c.rendezvous.isSome then 1 else 0

/-- mirrors channel.c:174-180 -/
def Chan.freeSpace (c : Chan V) : Nat :=
  if c.isBuffered then c.capacity - c.buffer.length else if c.rendezvous.isSome then 0 else 1

/-- mirrors channel.c:184-187 -/
def Chan.hasFreeValue (c : Chan V) : Bool := decide (c.receivers.reserved < c.count)

/-- mirrors channel.c:190-193 -/
def Chan.hasFreeSlot (c : Chan V) : Bool := decide (c.senders.reserved < c.freeSpace)

def emit (s : St V) (e : Ev V) : St V := { s with log := s.log ++ [e] }

/-- `none` is an `UNDEF` result: the pop of an empty buffer, or an empty slot.
mirrors channel.c:198-210 -/
def takeValue (s : St V) : St V × Option (Msg V) :=
  if s.isBuffered then ({ s with buffer := s.buffer.tail }, s.buffer.head?)
  else ({ s with rendezvous := none, committed := false }, s.rendezvous)

/-- `zval_circular_buffer_push(&channel->buffer, value, false)` on the ring the
constructor allocated for `capacity + 1` values. -/
def pushBuffer (s : St V) (m : Msg V) : St V :=
  if CircularBuffer.isFull (CircularBuffer.slots (s.capacity + 1)) s.buffer.length then
    emit s (.fault .bufferFull)
  else emit { s with buffer := s.buffer ++ [m] } (.accepted m)

/-- `waiter->future`: NULL for a coroutine waiter. -/
def Chan.future? (c : Chan V) (w : Nat) : Option Nat :=
  match c.receivers.table[w]? with
  | some x => if x.data.kind = .future then some x.data.call else none
  | none => none

def Chan.isDelivering (c : Chan V) (w : Nat) : Bool :=
  c.senders.table[w]?.any (·.data.delivering)

/-- `waiter->callback.base.callback(event, callback, NULL, exception)`. -/
def resume (s : St V) (side : Side) (w : Nat) (e : Option Exn) : St V :=
  { s with wakers := fun d i => if d = side ∧ i = w then (s.wakers d i).resume e else s.wakers d i }

def setFuture (s : St V) (f : Nat) (v : Future V) : St V :=
  { s with futures := fun g => if g = f then v else s.futures g }

/-- A future is resolved once: `zend_future_resolve` does nothing when it is
already closed.
mirrors future.c:481-512 -/
def completeFuture (s : St V) (f : Nat) (m : Option (Msg V)) : St V :=
  match s.futures f, m with
  | .pending _, some m => emit (setFuture s f (.completed m)) (.completed f m)
  | _, none => emit s (.fault .emptyTake)
  | _, _ => s

def rejectFuture (s : St V) (f : Nat) (e : Exn) : St V :=
  match s.futures f with
  | .pending _ => emit (setFuture s f (.rejected e)) (.rejected f e)
  | _ => s

/-! ## Deadlock timer -/

/-- mirrors channel.c:348-361 -/
def disarmDeadlockTimer (s : St V) : St V :=
  if s.timer.armed then { s with timer := { s.timer with armed := false, registered := false } }
  else s

/-- A soft timer is registered before it is started.
mirrors channel.c:363-395 -/
def armDeadlockTimer (s : St V) (reason : CloseReason) (timeoutMs : Nat) : St V :=
  if timeoutMs = 0 ∨ s.timer.armed = true ∨ s.closed = true then s
  else
    let t := { s.timer with made := s.timer.made + 1 }
    let soft := t.registered || !s.hardTimeouts
    match s.timer.answers s.timer.made with
    | .notCreated => { s with timer := t }
    | .notStarted => { s with timer := { t with registered := soft } }
    | .started => { s with timer := { t with registered := soft, armed := true, reason := reason } }

/-- mirrors channel.c:401-422 -/
def refreshDeadlockTimer (s : St V) : St V :=
  let hasRecv := decide (s.receivers.reserved < s.receivers.queue.length)
  let hasSend := decide (s.senders.reserved < s.senders.queue.length)
  if !hasRecv && !hasSend then disarmDeadlockTimer s
  else
    let reason := if hasRecv then CloseReason.noProducers else .noConsumers
    let timeout := if hasRecv then s.noProducerTimeoutMs else s.noConsumerTimeoutMs
    if s.timer.armed && decide (s.timer.reason = reason) then s
    else armDeadlockTimer (disarmDeadlockTimer s) reason timeout

/-! ## Wake operations -/

/-- mirrors channel.c:476-492 -/
def wakeDeliveredSender (s : St V) : St V :=
  if s.isBuffered || s.rendezvous.isSome then s
  else
    match s.senders.queue.find? s.isDelivering with
    | none => s
    | some w =>
      refreshDeadlockTimer (resume { s with senders := s.senders.remove w } .send w none)

/-- Gives a free slot to the oldest sender that waits for one. -/
def grantSlot (s : St V) : St V :=
  if !s.hasFreeSlot then s
  else
    match s.senders.first (·.delivering) with
    | none => s
    | some w =>
      refreshDeadlockTimer
        (resume (emit { s with senders := s.senders.grant w } (.granted .send w)) .send w none)

/-- mirrors channel.c:497-519 -/
def wakeSender (s : St V) : St V := grantSlot (wakeDeliveredSender s)

def dequeueReceiver (s : St V) (w : Nat) : St V :=
  emit { s with receivers := s.receivers.remove w } (.granted .recv w)

/-- Serves the future `f` waiting as `w` in place. -/
def serveFuture (s : St V) (w f : Nat) : St V :=
  let r := takeValue (dequeueReceiver s w)
  refreshDeadlockTimer (wakeSender (completeFuture r.1 f r.2))

def reserveValue (s : St V) (w : Nat) : St V :=
  refreshDeadlockTimer
    (resume (emit { s with receivers := s.receivers.grant w } (.granted .recv w)) .recv w none)

/-- mirrors channel.c:437-470 -/
def wakeReceiver (s : St V) : St V × Bool :=
  if !s.hasFreeValue then (s, false)
  else
    match s.receivers.first (fun _ => false) with
    | none => (s, false)
    | some w =>
      match s.future? w with
      | some f => (serveFuture s w f, true)
      | none => (reserveValue s w, true)

/-! ## Close -/

/-- One turn of the first loop of `channel_wake_all`. -/
def failReceiver (e : Exn) (s : St V) (w : Nat) : St V :=
  if s.receivers.isReserved w then s
  else
    match s.future? w with
    | some f => rejectFuture { s with receivers := s.receivers.remove w } f e
    | none => resume { s with receivers := s.receivers.remove w } .recv w (some e)

/-- One turn of the second loop. -/
def failSender (e : Exn) (s : St V) (w : Nat) : St V :=
  resume { s with senders := s.senders.remove w } .send w (some e)

/-- Both loops walk from the tail.
mirrors channel.c:529-561 -/
def wakeAll (s : St V) (e : Exn) : St V :=
  let s := s.receivers.queue.reverse.foldl (failReceiver e) s
  s.senders.queue.reverse.foldl (failSender e) s

/-- Drops a rendezvous value nobody was told about. -/
def rollback (s : St V) (why : Rollback) : St V :=
  match s.rendezvous with
  | some m =>
    if s.committed then s else emit { s with rendezvous := none } (.rolledBack m why)
  | none => s

/-- mirrors channel.c:563-586 -/
def close (s : St V) (reason : CloseReason) : St V :=
  if s.closed then s
  else
    let s := disarmDeadlockTimer { s with closeReason := reason, closed := true }
    rollback (wakeAll s (.channel reason)) .close

/-! ## Waiting -/

/-- `async_resolve_cancel_token`. -/
def tokenFired (s : St V) : Option Nat → Bool
  | some t => s.fired t
  | none => false

/-- Suspends: the new waiter's coroutine has a fresh waker. -/
def suspend (s : St V) (side : Side) (w : Nat) : St V :=
  { s with wakers := fun d i => if d = side ∧ i = w then .parked else s.wakers d i }

/-- `CHANNEL_WAIT_FOR_DATA` up to the suspension.
mirrors channel.c:683-717 -/
def waitForData (s : St V) (x : RecvWait) : St V :=
  if tokenFired s x.token then emit s (.threw .recv x.call .operationCanceled)
  else
    suspend (refreshDeadlockTimer { s with receivers := s.receivers.push x }) .recv
      s.receivers.table.length

/-- `CHANNEL_WAIT_FOR_SPACE`, or with `delivering` `CHANNEL_WAIT_FOR_DELIVERY`,
up to the suspension.
mirrors channel.c:683-717 -/
def waitForSend (s : St V) (x : SendWait V) : St V :=
  if tokenFired s x.token then emit s (.threw .send x.msg.call .operationCanceled)
  else
    suspend (refreshDeadlockTimer { s with senders := s.senders.push x }) .send
      s.senders.table.length

def assertThat (s : St V) (ok : Bool) (f : Fault) : St V := if ok then s else emit s (.fault f)

def leaveReceiver (s : St V) (w : Nat) : St V := { s with receivers := s.receivers.leave w }

def leaveSender (s : St V) (w : Nat) : St V := { s with senders := s.senders.leave w }

/-- `channel_wait_for` after the suspension, for a receiver woken with
exception `e`; the result is `spent`.
mirrors channel.c:719-785 -/
def resumeReceiver (s : St V) (w : Nat) (e : Option Exn) : St V × Bool :=
  let had := s.receivers.isReserved w
  let s := assertThat s (!had || decide (0 < s.receivers.reserved)) .receiverReleasedTwice
  let s := leaveReceiver s w
  let s := if had && e.isSome && !s.closed then (wakeReceiver s).1 else s
  (refreshDeadlockTimer s, had && e.isNone)

/-- The same for a sender.
mirrors channel.c:719-785 -/
def resumeSender (s : St V) (w : Nat) (e : Option Exn) : St V × Bool :=
  let had := s.senders.isReserved w
  let wasQueued := decide (w ∈ s.senders.queue)
  let delivering := s.isDelivering w
  let s := assertThat s (!had || decide (0 < s.senders.reserved)) .senderReleasedTwice
  let s := leaveSender s w
  let s := if delivering && e.isSome && wasQueued then rollback s .cancelledSender else s
  let s := if ((delivering && wasQueued) || (had && e.isSome)) && !s.closed then wakeSender s else s
  (refreshDeadlockTimer s, had && e.isNone)

/-! ## Methods -/

/-- The value, or `UNDEF`, a receiver gets. -/
def deliver (s : St V) (m : Option (Msg V)) (ev : Msg V → Ev V) : St V :=
  match m with
  | some m => emit s (ev m)
  | none => emit s (.fault .emptyTake)

/-- The result event of a receiver of kind `k`. -/
def RecvWait.event (x : RecvWait) (m : Msg V) : Ev V :=
  match x.kind with
  | .foreach => .element x.call m
  | _ => .received x.call m

/-- The `retry` loop of `recv()` and of `channel_iterator_move_forward`.
mirrors channel.c:984-997,1228-1238 -/
def receive (s : St V) (x : RecvWait) (hasReservation : Bool) : St V :=
  if hasReservation || s.hasFreeValue then
    let s := assertThat s (decide (x.kind = .foreach) || !s.isEmpty) .reservationOutlivedValue
    let r := takeValue s
    deliver (wakeSender r.1) r.2 x.event
  else if s.closed then
    match x.kind with
    | .foreach => emit s (.ended x.call)
    | _ => emit s (.threw .recv x.call (.channel s.closeReason))
  else waitForData s x

/-- Where a receiver ends up when it comes back with an exception: an explicit
close ends a `foreach`, anything else is thrown.
mirrors channel.c:999-1009,1240-1242 -/
def receiverFails (s : St V) (x : RecvWait) (e : Exn) : St V :=
  if decide (x.kind = .foreach) && e.isChannel && decide (s.closeReason = .explicit) then
    emit s (.ended x.call)
  else emit s (.threw .recv x.call e)

/-- Stores a rendezvous value and offers it to a receiver.
mirrors channel.c:1142-1152,1200-1205 -/
def offer (s : St V) (m : Msg V) : St V × Bool :=
  let r := wakeReceiver (emit { s with rendezvous := some m, committed := false } (.accepted m))
  if r.2 then ({ r.1 with committed := r.1.rendezvous.isSome }, true) else (r.1, false)

/-- The `retry` loop of `send()`.
mirrors channel.c:1132-1165 -/
def transmit (s : St V) (m : Msg V) (token : Option Nat) (hasReservation : Bool) : St V :=
  if s.closed then emit s (.threw .send m.call (.channel s.closeReason))
  else if hasReservation || s.hasFreeSlot then
    if s.isBuffered then emit (wakeReceiver (pushBuffer s m)).1 (.sent m.call)
    else
      let r := offer (assertThat s s.rendezvous.isNone .slotFilled) m
      if r.2 then emit r.1 (.sent m.call) else waitForSend r.1 ⟨m, token, true⟩
  else waitForSend s ⟨m, token, false⟩

/-- mirrors channel.c:1174-1207 -/
def transmitAsync (s : St V) (m : Msg V) : St V :=
  if s.closed then emit s (.refused m.call)
  else if !s.hasFreeSlot then emit s (.refused m.call)
  else if s.isBuffered then emit (wakeReceiver (pushBuffer s m)).1 (.sent m.call)
  else emit (offer s m).1 (.sent m.call)

/-- mirrors channel.c:1247-1292 -/
def receiveAsync (s : St V) (f : Nat) : St V :=
  let s := setFuture s f (.pending none)
  if s.hasFreeValue then
    let r := takeValue s
    completeFuture (wakeSender r.1) f r.2
  else if s.closed then rejectFuture s f (.channel s.closeReason)
  else
    setFuture { s with receivers := s.receivers.push ⟨f, .future, none⟩ } f
      (.pending (some s.receivers.table.length))

/-- `channel_recv_future_dispose`: no refresh of the deadlock timer.
mirrors channel.c:297-320 -/
def disposeFuture (s : St V) (f : Nat) : Option (St V) :=
  match s.futures f with
  | .absent => none
  | .disposed => none
  | .pending (some w) => some (setFuture { s with receivers := s.receivers.remove w } f .disposed)
  | _ => some (setFuture s f .disposed)

/-! ## Steps -/

inductive Lbl (V : Type) where
  | send (v : V) (token : Option Nat)
  | sendAsync (v : V)
  | recv (token : Option Nat)
  | foreach
  | recvAsync
  | close (reason : CloseReason)
  | run (side : Side) (w : Nat)
  | cancel (side : Side) (w : Nat)
  | fire (token : Nat)
  | tokenCancel (side : Side) (w : Nat)
  | dispose (future : Nat)
  | timer
  | resolveDeadlocks
  deriving DecidableEq, Repr

def tick (s : St V) : St V := { s with calls := s.calls + 1 }

/-- A coroutine is parked on waiter `w` of this side: the waiter has not run
and is not a future's. -/
def parkedOn (s : St V) (side : Side) (w : Nat) : Bool :=
  match side with
  | .recv => s.receivers.table[w]?.any fun x => x.live && decide (x.data.kind ≠ .future)
  | .send => s.senders.table[w]?.any (·.live)

def tokenOf (s : St V) (side : Side) (w : Nat) : Option Nat :=
  match side with
  | .recv => s.receivers.table[w]?.bind (·.data.token)
  | .send => s.senders.table[w]?.bind (·.data.token)

/-- A woken receiver runs. -/
def runReceiver (s : St V) (w : Nat) (x : RecvWait) : St V :=
  let e := (s.wakers .recv w).error
  let r := resumeReceiver s w e
  match e with
  | some e => receiverFails r.1 x e
  | none => receive r.1 x r.2

/-- A woken sender runs.
mirrors channel.c:1156-1171 -/
def runSender (s : St V) (w : Nat) (x : SendWait V) : St V :=
  let e := (s.wakers .send w).error
  let r := resumeSender s w e
  match e with
  | some e => emit r.1 (.threw .send x.msg.call e)
  | none => if x.delivering then emit r.1 (.sent x.msg.call) else transmit r.1 x.msg x.token r.2

def runWaiter (s : St V) (side : Side) (w : Nat) : Option (St V) :=
  if parkedOn s side w && (s.wakers side w).queued then
    match side with
    | .recv => s.receivers.table[w]?.map fun x => runReceiver s w x.data
    | .send => s.senders.table[w]?.map fun x => runSender s w x.data
  else none

/-- Replaces the waker of the coroutine parked on `w`. -/
def wake (s : St V) (side : Side) (w : Nat) (f : Waker → Waker) : St V :=
  { s with wakers := fun d i => if d = side ∧ i = w then f (s.wakers d i) else s.wakers d i }

/-- The transitions. `run` is enabled once the coroutine has been woken, at any
later time; `cancel` and `tokenCancel` reach a coroutine that is still parked
or already woken. `tokenCancel` is the callback of a fired token
(`zend_async_waker_callback_cancel`); the waker may have dropped its
subscription by then, so the callback need not come. `close` stands for
`close()`, the object's destructor and the end of the owner scope. -/
def step (s : St V) : Lbl V → Option (St V)
  | .send v token =>
    -- CANCELLATION_TOKEN_PREPARE throws before anything else
    if tokenFired s token then some (emit (tick s) (.threw .send s.calls .operationCanceled))
    else some (transmit (tick s) ⟨s.calls, .send, v⟩ token false)
  | .sendAsync v => some (transmitAsync (tick s) ⟨s.calls, .sendAsync, v⟩)
  | .recv token =>
    if tokenFired s token then some (emit (tick s) (.threw .recv s.calls .operationCanceled))
    else some (receive (tick s) ⟨s.calls, .recv, token⟩ false)
  | .foreach => some (receive (tick s) ⟨s.calls, .foreach, none⟩ false)
  | .recvAsync => some (receiveAsync (tick s) s.calls)
  | .close reason => some (close s reason)
  | .run side w => runWaiter s side w
  | .cancel side w => if parkedOn s side w then some (wake s side w Waker.cancel) else none
  | .fire t => some { s with fired := fun u => if u = t then true else s.fired u }
  | .tokenCancel side w =>
    if parkedOn s side w && tokenFired s (tokenOf s side w) then
      some (wake s side w fun k => k.resume (some .operationCanceled))
    else none
  | .dispose f => disposeFuture s f
  -- mirrors channel.c:333-345
  | .timer => if s.timer.armed then some (close s s.timer.reason) else none
  -- mirrors channel.c:640-670
  | .resolveDeadlocks => if s.timer.registered then some (close s .deadlock) else none

def Init (s : St V) : Prop := ∃ c p q hard answers, construct c p q hard answers = .ok s

def lts (V : Type) : LTS (St V) (Lbl V) := LTS.ofFn Init step

end PhpAsync.L2.Channel
