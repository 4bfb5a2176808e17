import Mathlib.Logic.Relation
import PhpAsync.L2Channel.Invariant

/-!
# `Async\Channel`: what a step does to values and waiters

Every step is a sequence of effects (`step_effects`): a waiter is queued, granted
something, woken or taken out, a value is accepted, taken, handed over or
withdrawn, a call of `send()` begins or ends. What is claimed of whole runs is
shown effect by effect in the modules that follow.

Two things are in nobody's field while a step runs: a value that has been taken
and not yet handed over (`hand`), and the call of `send()` that runs, with how
far its value has come (`call`).

`P` and `Q` are the two rules that a step may break (`TokenCovered`,
`CloseCovered`); `E` says that the parked senders are `Exact`.
-/
namespace PhpAsync.L2.Channel

open PhpAsync.Core PhpAsync.L1

variable {V : Type}

def Chan.held (c : Chan V) : List (Msg V) := c.buffer ++ c.rendezvous.toList

def Chan.loose (c : Chan V) : Option (Msg V) := if c.committed then none else c.rendezvous

/-- The value a receiver gets here. -/
def Ev.delivered? : Ev V → Option (Msg V)
  | .received _ m => some m
  | .element _ m => some m
  | .completed _ m => some m
  | _ => none

/-- Events about no value, no waiter and no call of `send()`. -/
inductive Ev.Silent : Ev V → Prop
  | rejected (f : Nat) (e : Exn) : Silent (.rejected f e)
  | threw (k : Nat) (e : Exn) : Silent (.threw .recv k e)
  | ended (k : Nat) : Silent (.ended k)

/-! ## The two conditions -/

/-- A woken `send()` that waited for space and whose token has fired finds a
receiver when it goes on to fill the rendezvous slot. -/
def TokenCovered (s : St V) : Lbl V → Prop
  | .run .send w =>
    match s.senders.live? w with
    | some x => x.delivering = false → (s.wakers .send w).error = none →
        tokenFired s x.token = true → s.capacity = 0 → s.closed = false →
        (s.senders.isReserved w = true ∨ s.hasFreeSlot = true) →
        ∃ v ∈ s.receivers.queue, s.receivers.isReserved v = false
    | none => True
  | _ => True

/-- When an open channel is closed, the rendezvous slot does not hold a value
of `sendAsync()` that no receiver has claimed. -/
def CloseCovered (s : St V) : Lbl V → Prop
  | .close _ | .timer | .resolveDeadlocks =>
    s.closed = false → ∀ m ∈ s.rendezvous, s.committed = false → m.via = .send
  | _ => True

instance (s : St V) : ∀ l, Decidable (TokenCovered s l)
  | .run .send w => by unfold TokenCovered; dsimp only; split <;> infer_instance
  | .run .recv _ | .send .. | .sendAsync .. | .recv .. | .recvAsync | .foreach | .close ..
  | .cancel .. | .fire .. | .tokenCancel .. | .dispose .. | .timer | .resolveDeadlocks =>
    isTrue trivial

instance (s : St V) : ∀ l, Decidable (CloseCovered s l)
  | .close _ | .timer | .resolveDeadlocks => by unfold CloseCovered; infer_instance
  | .run .. | .send .. | .sendAsync .. | .recv .. | .recvAsync | .foreach | .cancel .. | .fire ..
  | .tokenCancel .. | .dispose .. => isTrue trivial

/-! ## Effects -/

/-- The value of a call of `send()` that runs: not accepted yet; accepted, and
it may be in the channel; taken by a receiver; not in the channel. -/
inductive Stage where
  | fresh | kept | taken | lost
  deriving DecidableEq

structure Sending (V : Type) where
  msg : Msg V
  stage : Stage

structure Cfg (V : Type) where
  st : St V
  hand : Option (Msg V)
  call : Option (Sending V)

/-- Where the value of a parked sender is when it runs. -/
def stageOf (s : St V) (w : Nat) (x : SendWait V) : Stage :=
  if x.delivering = false then .fresh
  else if w ∈ s.senders.queue then .kept
  else if (s.wakers .send w).error.isNone then .taken
  else .lost

/-- The timer is as it was, or it was refreshed or disarmed. -/
def Retimed (s : St V) (t : Timer) : Prop :=
  t = s.timer ∨ ∃ u : St V, (u.timer, u.hardTimeouts) = (s.timer, s.hardTimeouts) ∧
    (t = (refreshDeadlockTimer u).timer ∨ t = (disarmDeadlockTimer u).timer)

inductive Effect (P Q E : Prop) : Cfg V → Cfg V → Prop
  | frame {s h k} (timer : Timer) (ht : Retimed s timer) (closed : Bool) (closeReason : CloseReason)
      (fired : Nat → Bool) (futures : Nat → Future V) :
      Effect P Q E ⟨s, h, k⟩ ⟨{ s with timer, closed, closeReason, fired, futures }, h, k⟩
  | note {s h k} {e : Ev V} (he : e.Silent) : Effect P Q E ⟨s, h, k⟩ ⟨emit s e, h, k⟩
  | wake {s h k} (wakers : Side → Nat → Waker)
      (hs : ∀ v, (wakers .send v).error ≠ none ∨ wakers .send v = s.wakers .send v)
      (hr : ∀ v, (s.wakers .recv v).queued = true → (wakers .recv v).queued = true) :
      Effect P Q E ⟨s, h, k⟩ ⟨{ s with wakers }, h, k⟩
  | pushRecv {s h k} (x : RecvWait) (wakers : Side → Nat → Waker) (hs : wakers .send = s.wakers .send)
      (hr : ∀ v, v ≠ s.receivers.table.length → wakers .recv v = s.wakers .recv v) :
      Effect P Q E ⟨s, h, k⟩ ⟨{ s with receivers := s.receivers.push x, wakers }, h, k⟩
  | removeRecv {s h k} (w : Nat) :
      Effect P Q E ⟨s, h, k⟩ ⟨{ s with receivers := s.receivers.remove w }, h, k⟩
  | leaveRecv {s h k} (w : Nat) : Effect P Q E ⟨s, h, k⟩ ⟨leaveReceiver s w, h, k⟩
  | serve {s h k} (w : Nat) (hq : s.receivers.WF) (hw : s.receivers.first (fun _ => false) = some w) :
      Effect P Q E ⟨s, h, k⟩ ⟨dequeueReceiver s w, h, k⟩
  | reserve {s h k} (w : Nat) (hq : s.receivers.WF) (hw : s.receivers.first (fun _ => false) = some w) :
      Effect P Q E ⟨s, h, k⟩
        ⟨resume (emit { s with receivers := s.receivers.grant w } (.granted .recv w)) .recv w none, h, k⟩
  | take {s k m} (hh : s.held = m :: (takeValue s).1.held) (hn : (takeValue s).1.rendezvous = none) :
      Effect P Q E ⟨s, none, k⟩ ⟨(takeValue s).1, some m, k⟩
  | deliver {s k m e} (he : e.delivered? = some m) : Effect P Q E ⟨s, some m, k⟩ ⟨emit s e, none, k⟩
  | unpark {s h k} (w : Nat) (hq : s.senders.WF) (hh : s.held = []) :
      Effect P Q E ⟨s, h, k⟩ ⟨resume { s with senders := s.senders.remove w } .send w none, h, k⟩
  | grantSend {s h k} (w : Nat) (hq : s.senders.WF) (hw : s.senders.first (·.delivering) = some w) :
      Effect P Q E ⟨s, h, k⟩
        ⟨resume (emit { s with senders := s.senders.grant w } (.granted .send w)) .send w none, h, k⟩
  | start {s h} (via : Via) (v : V) :
      Effect P Q E ⟨s, h, none⟩ ⟨tick s, h, some ⟨⟨s.calls, via, v⟩, .fresh⟩⟩
  | tick {s h} : Effect P Q E ⟨s, h, none⟩ ⟨tick s, h, none⟩
  | accept {s h m} (buffer : List (Msg V)) (rendezvous : Option (Msg V)) (committed : Bool)
      (hh : buffer ++ rendezvous.toList = s.held ++ [m]) (hl : rendezvous = none ∨ rendezvous = some m) :
      Effect P Q E ⟨s, h, some ⟨m, .fresh⟩⟩
        ⟨emit { s with buffer, rendezvous, committed } (.accepted m), h, some ⟨m, .kept⟩⟩
  | commit {s h k} : Effect P Q E ⟨s, h, k⟩ ⟨{ s with committed := s.rendezvous.isSome }, h, k⟩
  | pushSend {s h} (x : SendWait V) (hv : E → x.msg.via = .send) :
      Effect P Q E ⟨s, h, some ⟨x.msg, if x.delivering then .kept else .fresh⟩⟩
        ⟨suspend { s with senders := s.senders.push x } .send s.senders.table.length, h, none⟩
  | leaveSend {s h w x} (hq : s.senders.WF) (hx : s.senders.live? w = some x) :
      Effect P Q E ⟨s, h, none⟩ ⟨leaveSender s w, h, some ⟨x.msg, stageOf s w x⟩⟩
  | withdraw {s h m} (hr : s.rendezvous = some m) (hc : s.committed = false) (hb : s.buffer = []) :
      Effect P Q E ⟨s, h, some ⟨m, .kept⟩⟩
        ⟨emit { s with rendezvous := none } (.rolledBack m .cancelledSender), h, some ⟨m, .lost⟩⟩
  | shut {s} (wakers : Side → Nat → Waker) (hr : wakers .recv = s.wakers .recv)
      (hs : ∀ v, (wakers .send v).error ≠ none ∨ v ∉ s.senders.queue ∧ wakers .send v = s.wakers .send v)
      (ho : ∀ w x, w ∈ s.senders.queue → s.senders.live? w = some x → x.delivering = false) :
      Effect P Q E ⟨s, none, none⟩ ⟨{ s with senders := { s.senders with queue := [] }, wakers }, none, none⟩
  | shutDrop {s m} (wakers : Side → Nat → Waker) (hr : wakers .recv = s.wakers .recv)
      (hs : ∀ v, (wakers .send v).error ≠ none ∨ v ∉ s.senders.queue ∧ wakers .send v = s.wakers .send v)
      (hm : s.rendezvous = some m) (hc : s.committed = false) (hb : s.buffer = []) (hQ : Q → m.via = .send) :
      Effect P Q E ⟨s, none, none⟩
        ⟨emit { s with senders := { s.senders with queue := [] }, wakers, rendezvous := none } (.rolledBack m .close),
          none, none⟩
  | sent {s h c} (hc : c.stage = .taken ∨ c.stage = .kept ∧
        (E → ∀ n, s.loose = some n → n.via = .send → n.call ≠ c.msg.call)) :
      Effect P Q E ⟨s, h, some c⟩ ⟨emit s (.sent c.msg.call), h, none⟩
  | refused {s h m} : Effect P Q E ⟨s, h, some ⟨m, .fresh⟩⟩ ⟨emit s (.refused m.call), h, none⟩
  | threw {s c} (e : Exn) (hc : c.stage = .kept → ¬ P) :
      Effect P Q E ⟨s, none, some c⟩ ⟨emit s (.threw .send c.msg.call e), none, none⟩

abbrev Effects (P Q E : Prop) : Cfg V → Cfg V → Prop := Relation.ReflTransGen (Effect P Q E)

variable {P Q E : Prop} {a b w : Nat} {s : St V} {h : Option (Msg V)} {k : Option (Sending V)} {m : Msg V}

/-- What every effect keeps, a sequence keeps. -/
theorem Effects.keeps {I : Cfg V → Prop} {c d : Cfg V} (hI : ∀ c d, Effect P Q E c d → I c → I d)
    (h : Effects P Q E c d) (h0 : I c) : I d := by
  induction h with
  | refl => exact h0
  | tail _ hd ih => exact hI _ _ hd ih

/-! ## Waking -/

theorem refresh_effects (s : St V) : Effects P Q E ⟨s, h, k⟩ ⟨refreshDeadlockTimer s, h, k⟩ := by
  obtain ⟨t, ht⟩ := refresh_eq s
  rw [ht]
  exact .single (.frame t (.inr ⟨s, rfl, .inl (by rw [ht])⟩) s.closed s.closeReason s.fired s.futures)

theorem setFuture_effects (s : St V) (f : Nat) (v : Future V) :
    Effects P Q E ⟨s, h, k⟩ ⟨setFuture s f v, h, k⟩ :=
  .single (.frame s.timer (.inl rfl) s.closed s.closeReason s.fired _)

/-- Without a buffer the channel holds what is in the slot. -/
theorem Mid.buffer_nil {c : Chan V} (hm : Mid a b c) (h0 : c.capacity = 0) : c.buffer = [] :=
  List.eq_nil_of_length_eq_zero (Nat.le_zero.1 (h0 ▸ hm.fits))

theorem Mid.slot_capacity {c : Chan V} (hm : Mid a b c) (hr : c.rendezvous ≠ none) : c.capacity = 0 :=
  Nat.eq_zero_of_not_pos fun hpos => hr (hm.slot hpos)

theorem wakeSender_effects (hm : Mid a b s.toChan) : Effects P Q E ⟨s, h, k⟩ ⟨wakeSender s, h, k⟩ := by
  have hm1 := (wakeDeliveredSender_mid hm).1
  have h1 : Effects P Q E ⟨s, h, k⟩ ⟨wakeDeliveredSender s, h, k⟩ := by
    rcases wakeDeliveredSender_cases s with ⟨heq, -⟩ | ⟨w, -, -, h0, hn, heq⟩ <;> rw [heq]
    refine .head (.unpark w hm.send.wf ?_) (refresh_effects _)
    rw [Chan.held, hm.buffer_nil h0, hn]; rfl
  refine h1.trans ?_
  unfold wakeSender
  generalize wakeDeliveredSender s = t at hm1 ⊢
  rcases grantSlot_cases t with ⟨heq, -⟩ | ⟨w, -, hw, heq⟩ <;> rw [heq]
  exact .head (.grantSend w hm1.send.wf hw) (refresh_effects _)

/-- The value taken is the oldest. -/
theorem takeValue_held (hm : Mid a b s.toChan) (hnext : s.next = some m) : s.held = m :: (takeValue s).1.held := by
  unfold Chan.next at hnext
  unfold takeValue
  split at hnext
  · rename_i hb
    have hnone := hm.slot (isBuffered_iff.1 hb)
    rw [if_pos hb]
    cases hl : s.buffer with
    | nil => rw [hl] at hnext; cases hnext
    | cons n l =>
      rw [hl] at hnext
      cases hnext
      simp [Chan.held, hl, hnone]
  · rename_i hb
    have hcap : s.capacity = 0 := by
      have := mt isBuffered_iff.2 hb
      omega
    rw [if_neg hb]
    simp [Chan.held, hm.buffer_nil hcap, hnext]

theorem takeValue_effects (hm : Mid a b s.toChan) (hnext : s.next = some m) :
    Effects P Q E ⟨s, none, k⟩ ⟨(takeValue s).1, some m, k⟩ :=
  .single (.take (takeValue_held hm hnext) (takeValue_slot hm.slot))

theorem wakeReceiver_effects (hm : Mid a b s.toChan) : Effects P Q E ⟨s, none, k⟩ ⟨(wakeReceiver s).1, none, k⟩ := by
  rcases wakeReceiver_cases s with ⟨heq, -⟩ | ⟨w, hv, hw, ⟨f, hf, heq⟩ | ⟨-, heq⟩⟩ <;> rw [heq]
  · obtain ⟨m, hm1, hnext, hm2, hs⟩ := serveFuture_eq hm hv (WaitQueue.first_mem hw).1 hf
    rw [hs]
    refine .head (.serve w hm.recv.wf hw) ((takeValue_effects hm1 hnext).trans ?_)
    refine (setFuture_effects _ f (.completed m)).trans (.head (.deliver (e := .completed f m) rfl) ?_)
    refine Relation.ReflTransGen.trans ?_ (refresh_effects _)
    exact wakeSender_effects (a := a - 1) (b := b + 1) hm2
  · exact .head (.reserve w hm.recv.wf hw) (refresh_effects _)

/-! ## Receiving -/

theorem RecvWait.event_delivered (x : RecvWait) (m : Msg V) : (x.event m).delivered? = some m := by
  unfold RecvWait.event
  split <;> rfl

theorem waitForData_effects (s : St V) (x : RecvWait) : Effects P Q E ⟨s, h, k⟩ ⟨waitForData s x, h, k⟩ := by
  unfold waitForData
  split
  · exact .single (.note (.threw ..))
  · obtain ⟨t, ht⟩ := refresh_eq { s with receivers := s.receivers.push x }
    rw [ht]
    refine .head (.pushRecv x (suspend s .recv s.receivers.table.length).wakers
      rfl fun v hv => if_neg fun hc => hv hc.2) ?_
    exact .single (.frame t (.inr ⟨_, by rfl, .inl (congrArg St.timer ht.symm)⟩) s.closed s.closeReason s.fired s.futures)

theorem receive_effects (hm : Mid a 0 s.toChan) {has : Bool} (hv : has = true → s.receivers.reserved < s.count)
    (x : RecvWait) : Effects P Q E ⟨s, none, k⟩ ⟨receive s x has, none, k⟩ := by
  rcases receive_cases hm hv x with ⟨m, hlt, hnext, heq⟩ | ⟨-, -, -, heq | heq⟩ | ⟨-, -, -, heq⟩ <;> rw [heq]
  · refine (takeValue_effects hm hnext).trans ((wakeSender_effects (takeValue_mid hm hlt).1).trans ?_)
    exact .single (.deliver (x.event_delivered m))
  · exact .single (.note (.ended _))
  · exact .single (.note (.threw ..))
  · exact waitForData_effects s x

theorem receiveAsync_effects (hi : Inv s.toChan) :
    Effects P Q E ⟨s, none, none⟩ ⟨receiveAsync (tick s) s.calls, none, none⟩ := by
  have hm := (withFuture_inv hi).toMid
  have h0 : Effects P Q E ⟨s, none, none⟩ ⟨withFuture s, none, none⟩ := .head .tick (setFuture_effects _ _ _)
  refine h0.trans ?_
  rcases receiveAsync_cases hi with ⟨m, hlt, hnext, -, heq⟩ | ⟨-, -, heq⟩ | ⟨-, -, heq⟩ <;> rw [heq]
  · refine (takeValue_effects hm hnext).trans ((wakeSender_effects (takeValue_mid hm hlt).1).trans ?_)
    exact (setFuture_effects _ _ _).tail (.deliver rfl)
  · exact (setFuture_effects _ _ _).tail (.note (.rejected ..))
  · exact .head (.pushRecv _ s.wakers rfl fun _ _ => rfl) (setFuture_effects _ _ _)

theorem runReceiver_effects (hi : Inv s.toChan) {x : Waiter RecvWait} (hx : s.receivers.table[w]? = some x)
    (hl : x.live = true) : Effects P Q E ⟨s, none, k⟩ ⟨runReceiver s w x.data, none, k⟩ := by
  unfold runReceiver
  generalize (s.wakers .recv w).error = e
  have h1 : Effects P Q E ⟨s, none, k⟩ ⟨(resumeReceiver s w e).1, none, k⟩ := by
    rcases resumeReceiver_cases hi hx hl e with ⟨-, -, -, heq⟩ | ⟨-, heq⟩ <;> rw [heq]
    · exact .head (.leaveRecv w) ((wakeReceiver_effects (leaveReceiver_mid hi hx hl).1).trans (refresh_effects _))
    · exact .head (.leaveRecv w) (refresh_effects _)
  obtain ⟨hm, -, -, hlt⟩ := resumeReceiver_mid hi hx hl e
  refine h1.trans ?_
  cases e with
  | none => exact receive_effects hm hlt x.data
  | some ex =>
    dsimp only [receiverFails]
    split
    · exact .single (.note (.ended _))
    · exact .single (.note (.threw ..))

/-! ## Sending -/

theorem pushBuffer_effects (hm : Mid a b s.toChan) (hs : Settled s.toChan) (hpos : 0 < s.capacity)
    (hf : s.senders.reserved < s.freeSpace) :
    Effects P Q E ⟨s, none, some ⟨m, .fresh⟩⟩ ⟨emit (wakeReceiver (pushBuffer s m)).1 (.sent m.call), none, none⟩ := by
  have hn := hm.slot hpos
  have h1 : Effects P Q E ⟨s, none, some ⟨m, .fresh⟩⟩ ⟨pushBuffer s m, none, some ⟨m, .kept⟩⟩ := by
    rw [pushBuffer_eq hpos hf m]
    exact .single (.accept _ s.rendezvous s.committed (by simp [Chan.held, hn]) (.inl hn))
  refine h1.trans ((wakeReceiver_effects (pushBuffer_mid hm hpos hf m)).tail ?_)
  refine .sent (c := ⟨m, .kept⟩) (.inr ⟨rfl, fun _ n hn => ?_⟩)
  rw [Chan.loose, pushBuffer_slot hm hs hpos hf m] at hn
  split at hn <;> cases hn

/-- A value that nobody waits for stays in the slot. -/
theorem offer_alone (hst : ¬ s.receivers.Starving (fun _ => false)) (m : Msg V) :
    offer s m = (emit { s with rendezvous := some m, committed := false } (.accepted m), false) := by
  unfold offer
  rcases wakeReceiver_cases (emit { s with rendezvous := some m, committed := false } (.accepted m))
    with ⟨heq, -⟩ | ⟨w, -, hw, -⟩
  · rw [heq]; rfl
  · exact (hst ⟨w, WaitQueue.first_mem hw⟩).elim

/-- What is left uncommitted in the slot, and why, when a value is offered. -/
theorem offer_effects (hm : Mid 0 b s.toChan) (hs : Settled s.toChan) (h0 : s.capacity = 0)
    (hf : s.senders.reserved < s.freeSpace) :
    Effects P Q E ⟨s, none, some ⟨m, .fresh⟩⟩ ⟨(offer s m).1, none, some ⟨m, .kept⟩⟩ ∧
      ((offer s m).2 = true → (offer s m).1.loose = none) ∧
      ((offer s m).2 = false → ¬ s.receivers.Starving (fun _ => false)) := by
  obtain ⟨hn, hres⟩ := hm.slot_empty h0 hf
  have hmid := storeSlot_mid hm h0 hf hs m
  have h1 : Effects P Q E ⟨s, none, some ⟨m, .fresh⟩⟩
      ⟨emit { s with rendezvous := some m, committed := false } (.accepted m), none, some ⟨m, .kept⟩⟩ :=
    .single (.accept s.buffer (some m) false (by simp [Chan.held, hn]) (.inr rfl))
  have h2 := h1.trans (wakeReceiver_effects
    (s := emit { s with rendezvous := some m, committed := false } (.accepted m)) hmid)
  unfold offer
  dsimp only
  split
  · refine ⟨h2.tail .commit, fun _ => ?_, nofun⟩
    generalize (wakeReceiver (emit { s with rendezvous := some m, committed := false } (.accepted m))).1 = t
    unfold Chan.loose
    cases t.rendezvous <;> rfl
  · rename_i hr
    refine ⟨h2, nofun, fun _ hst => ?_⟩
    rcases wakeReceiver_cases (emit { s with rendezvous := some m, committed := false } (.accepted m))
      with ⟨-, hfull | hn⟩ | ⟨w, -, -, ⟨f, -, heq⟩ | ⟨-, heq⟩⟩
    · rw [emit_toChan, count_rendezvous (by exact h0)] at hfull
      simp [hres] at hfull
    · exact hn hst
    · rw [heq] at hr; exact hr rfl
    · rw [heq] at hr; exact hr rfl

theorem waitForSend_effects {x : SendWait V} (hv : E → x.msg.via = .send)
    (hP : P → x.delivering = true → tokenFired s x.token = false) :
    Effects P Q E ⟨s, none, some ⟨x.msg, if x.delivering then .kept else .fresh⟩⟩ ⟨waitForSend s x, none, none⟩ := by
  unfold waitForSend
  cases ht : tokenFired s x.token with
  | true =>
    refine .single (.threw (c := ⟨x.msg, if x.delivering then .kept else .fresh⟩) _ fun hc hp => ?_)
    cases hd : x.delivering with
    | true => rw [hP hp hd] at ht; cases ht
    | false => rw [hd] at hc; cases hc
  | false =>
    rw [if_neg Bool.false_ne_true]
    obtain ⟨t, ht⟩ := refresh_eq { s with senders := s.senders.push x }
    rw [ht]
    exact .head (.pushSend x hv)
      (.single (.frame t (.inr ⟨_, by rfl, .inl (congrArg St.timer ht.symm)⟩) s.closed s.closeReason s.fired s.futures))

theorem transmit_effects (hm : Mid 0 b s.toChan) (hs : Settled s.toChan) {token : Option Nat} {has : Bool}
    (hv : has = true → s.senders.reserved < s.freeSpace) (hvia : E → m.via = .send)
    (hP : P → s.capacity = 0 → s.closed = false → s.senders.reserved < s.freeSpace →
      ¬ s.receivers.Starving (fun _ => false) → tokenFired s token = false) :
    Effects P Q E ⟨s, none, some ⟨m, .fresh⟩⟩ ⟨transmit s m token has, none, none⟩ := by
  rcases transmit_cases hm hv m token with ⟨-, heq⟩ | ⟨-, hlt, hpos, heq⟩ | ⟨-, hlt, h0, hr, heq⟩ |
    ⟨hopen, hlt, h0, hr, heq⟩ | ⟨-, -, -, heq⟩ <;> rw [heq]
  · exact .single (.threw _ nofun)
  · exact pushBuffer_effects hm hs hpos hlt
  · obtain ⟨h1, hl, -⟩ := offer_effects (P := P) (Q := Q) (E := E) (m := m) hm hs h0 hlt
    refine h1.tail (.sent (c := ⟨m, .kept⟩) (.inr ⟨rfl, fun _ n hn => ?_⟩))
    rw [hl hr] at hn; cases hn
  · obtain ⟨h1, -, hst⟩ := offer_effects (P := P) (Q := Q) (E := E) (m := m) hm hs h0 hlt
    refine h1.trans (waitForSend_effects (x := ⟨m, token, true⟩) hvia fun hp _ => ?_)
    rw [offer_alone (hst hr)]
    exact hP hp h0 hopen hlt (hst hr)
  · exact waitForSend_effects (x := ⟨m, token, false⟩) hvia nofun

theorem transmitAsync_effects (hi : Inv s.toChan) (hvia : m.via = .sendAsync) :
    Effects P Q E ⟨s, none, some ⟨m, .fresh⟩⟩ ⟨transmitAsync s m, none, none⟩ := by
  rcases transmitAsync_cases s m with heq | ⟨-, hlt, hpos, heq⟩ | ⟨-, hlt, h0, heq⟩ <;> rw [heq]
  · exact .single .refused
  · exact pushBuffer_effects hi.toMid hi.settled hpos hlt
  · obtain ⟨h1, hl, hst⟩ := offer_effects (P := P) (Q := Q) (E := E) (m := m) hi.toMid hi.settled h0 hlt
    refine h1.tail (.sent (c := ⟨m, .kept⟩) (.inr ⟨rfl, fun _ n hn hs => ?_⟩))
    cases hr : (offer s m).2 with
    | true => rw [hl hr] at hn; cases hn
    | false =>
      rw [offer_alone (hst hr)] at hn
      cases hn
      rw [hvia] at hs; cases hs

variable {x : Waiter (SendWait V)}

/-! ## A sender runs -/

/-- A sender that waited for space is woken without an exception. -/
theorem resumeSender_waiting (hi : Inv s.toChan)
    (hx : s.senders.table[w]? = some x) (hl : x.live = true) (hd : x.data.delivering = false) :
    resumeSender s w none = (refreshDeadlockTimer (leaveSender s w), x.reserved) := by
  rcases resumeSender_cases hi hx hl none with ⟨-, -, he, -⟩ |
    ⟨⟨hd', -, -⟩ | ⟨-, -, he, -⟩, -⟩ | ⟨-, -, heq⟩
  · cases he
  · rw [hd] at hd'; cases hd'
  · cases he
  · rw [heq, Option.isNone_none, Bool.and_true]

theorem tokenFired_leave (s : St V) (w : Nat) (o : Option Nat) :
    tokenFired (refreshDeadlockTimer (leaveSender s w)) o = tokenFired s o := by
  obtain ⟨t, ht⟩ := refresh_eq (leaveSender s w)
  rw [ht]
  cases o <;> rfl

/-- The gate of the retry, read off the state before the sender runs. -/
theorem passes_iff (hi : Inv s.toChan)
    (hx : s.senders.table[w]? = some x) (hl : x.live = true) :
    (leaveSender s w).senders.reserved < (leaveSender s w).freeSpace ↔
      s.senders.isReserved w = true ∨ s.hasFreeSlot = true := by
  have hspace : (leaveSender s w).freeSpace = s.freeSpace := rfl
  constructor
  · intro hlt
    cases hr : s.senders.isReserved w with
    | true => exact .inl rfl
    | false =>
      refine .inr (decide_eq_true ?_)
      rw [hspace] at hlt
      simpa [leaveSender, WaitQueue.leave, hr] using hlt
  · rintro (hr | hf)
    · rw [WaitQueue.isReserved_some hx] at hr
      exact (leaveSender_mid hi hx hl).2.2.2 hr
    · have hlt : s.senders.reserved < s.freeSpace := of_decide_eq_true hf
      rw [hspace]
      simp only [leaveSender, WaitQueue.leave]
      split <;> omega

/-- A parked sender is in a call of `send()`, and one that waits for its delivery
is woken early only with an exception. -/
def Exact (s : St V) : Prop :=
  ∀ w x, s.senders.live? w = some x → x.msg.via = .send ∧
    (x.delivering = true → w ∈ s.senders.queue → (s.wakers .send w).queued = true →
      (s.wakers .send w).error ≠ none)

theorem runSender_effects (hi : Inv s.toChan) (hx : s.senders.table[w]? = some x)
    (hl : x.live = true) (hq : (s.wakers .send w).queued = true) (hP : P → TokenCovered s (.run .send w))
    (hE : E → Exact s) : Effects P Q E ⟨s, none, none⟩ ⟨runSender s w x.data, none, none⟩ := by
  have hlive := WaitQueue.live?_of hx hl
  have hm1 := (leaveSender_mid hi hx hl).1
  refine .head (.leaveSend hi.send.wf hlive) ?_
  unfold runSender
  cases hwe : (s.wakers .send w).error with
  | some ex =>
    dsimp only
    rcases resumeSender_cases hi hx hl (some ex) with ⟨hd, hw, -, heq⟩ | ⟨⟨-, -, he⟩ | ⟨hd, -⟩, heq⟩ | ⟨hn, -, heq⟩
    · -- the value is withdrawn
      obtain ⟨h0, hslot, hcom⟩ := hi.own hw hx hd
      have hst : stageOf s w x.data = .kept := by simp [stageOf, hd, hw]
      have hr : rollback (leaveSender s w) .cancelledSender =
          emit { leaveSender s w with rendezvous := none } (.rolledBack x.data.msg .cancelledSender) := by
        simp [rollback, leaveSender, hslot, hcom]
      have hm2 := (rollback_mid hm1 (leaveSender_mid hi hx hl).2.2.1 .cancelledSender).1
      rw [hst, heq]
      refine .head (.withdraw hslot hcom (hm1.buffer_nil h0)) ?_
      rw [hr] at hm2 ⊢
      refine ((wakeSender_effects hm2).trans (refresh_effects _)).tail ?_
      exact .threw (c := ⟨x.data.msg, .lost⟩) ex (by simp)
    · cases he
    · have hst : stageOf s w x.data = .fresh := by simp [stageOf, hd]
      rw [hst, heq]
      exact ((wakeSender_effects hm1).trans (refresh_effects _)).tail (.threw (c := ⟨x.data.msg, .fresh⟩) ex (by simp))
    · rw [heq]
      refine (refresh_effects _).tail (.threw (c := ⟨x.data.msg, _⟩) ex fun hst => ?_)
      grind [stageOf]
  | none =>
    dsimp only
    split
    · -- the value was taken
      rename_i hd
      rcases resumeSender_cases hi hx hl none with ⟨-, -, he, -⟩ | ⟨⟨-, hw, -⟩ | ⟨hd', -⟩, heq⟩ | ⟨hn, -, heq⟩
      · cases he
      · have hst : stageOf s w x.data = .kept := by simp [stageOf, hd, hw]
        rw [hst, heq]
        refine ((wakeSender_effects hm1).trans (refresh_effects _)).tail ?_
        exact .sent (c := ⟨x.data.msg, .kept⟩) (.inr ⟨rfl, fun he => ((hE he w _ hlive).2 hd hw hq hwe).elim⟩)
      · rw [hd] at hd'; cases hd'
      · have hst : stageOf s w x.data = .taken := by simp [stageOf, hd, hn hd, hwe]
        rw [hst, heq]
        exact (refresh_effects _).tail (.sent (c := ⟨x.data.msg, .taken⟩) (.inl rfl))
    · -- the retry
      rename_i hd
      have hd' : x.data.delivering = false := by simpa using hd
      have hwait := resumeSender_waiting hi hx hl hd'
      obtain ⟨hm, hs, -, hlt⟩ := resumeSender_mid hi hx hl none
      have hst : stageOf s w x.data = .fresh := by simp [stageOf, hd']
      rw [hst]
      have h1 : Effects P Q E ⟨leaveSender s w, none, some ⟨x.data.msg, .fresh⟩⟩
          ⟨(resumeSender s w none).1, none, some ⟨x.data.msg, .fresh⟩⟩ := by
        rw [hwait]; exact refresh_effects _
      refine h1.trans (transmit_effects hm hs hlt (fun he => (hE he w _ hlive).1) fun hp h0 hopen hfree hst => ?_)
      rw [hwait, refresh_toChan] at h0 hopen hfree hst
      rw [hwait, tokenFired_leave]
      cases htf : tokenFired s x.data.token with
      | false => rfl
      | true =>
        have hg := hP hp
        simp only [TokenCovered, hlive] at hg
        obtain ⟨v, hv, hres⟩ := hg hd' hwe htf h0 hopen ((passes_iff hi hx hl).1 hfree)
        obtain ⟨y, hy, -⟩ := hi.recv.wf.known v hv
        rw [WaitQueue.isReserved_some hy] at hres
        exact (hst ⟨v, hv, WaitQueue.isFree_of hy hres rfl⟩).elim

/-! ## Closing -/

/-- A coroutine is woken with an exception. -/
theorem wake_effect (side : Side) (w : Nat) {f : Waker → Waker} (hf : ∀ k, (f k).error ≠ none ∧ (f k).queued = true) :
    Effect P Q E ⟨s, h, k⟩ ⟨wake s side w f, h, k⟩ := by
  refine .wake _ (fun v => ?_) (fun v hv => ?_)
  · split
    · exact .inl (hf _).1
    · exact .inr rfl
  · split
    · exact (hf _).2
    · exact hv

theorem failReceivers_effects (e : Exn) : ∀ (l : List Nat) (s : St V),
    Effects P Q E ⟨s, h, k⟩ ⟨l.foldl (failReceiver e) s, h, k⟩
  | [], _ => .refl
  | w :: l, s => by
    refine Relation.ReflTransGen.trans ?_ (failReceivers_effects e l _)
    unfold failReceiver
    split
    · exact .refl
    refine .head (.removeRecv w) ?_
    split
    · unfold rejectFuture
      split
      · exact (setFuture_effects _ _ _).tail (.note (.rejected ..))
      · exact .refl
    · exact .single (wake_effect .recv w fun k => ⟨k.resume_some e, k.resume_queued _⟩)

theorem failReceivers_chan (e : Exn) : ∀ (l : List Nat) (s : St V), ∃ q g,
    (l.foldl (failReceiver e) s).toChan = { s.toChan with receivers := q, futures := g }
  | [], s => ⟨s.receivers, s.futures, rfl⟩
  | w :: l, s => by
    rw [List.foldl_cons]
    obtain ⟨q, g, h⟩ := failReceivers_chan e l (failReceiver e s w)
    rw [h]
    unfold failReceiver
    split
    · exact ⟨q, g, rfl⟩
    split
    · unfold rejectFuture
      split <;> exact ⟨q, g, rfl⟩
    · exact ⟨q, g, rfl⟩

theorem close_effects (hi : Inv s.toChan) (reason : CloseReason)
    (hQ : Q → s.closed = false → ∀ m ∈ s.rendezvous, s.committed = false → m.via = .send) :
    Effects P Q E ⟨s, none, none⟩ ⟨close s reason, none, none⟩ := by
  unfold close
  split
  · exact .refl
  rename_i hcl
  dsimp only [wakeAll]
  have hs0 : (disarmDeadlockTimer { s with closeReason := reason, closed := true }).toChan =
      { s.toChan with closed := true } := by rw [disarm_toChan]
  have h0 : Effects P Q E ⟨s, none, none⟩
      ⟨disarmDeadlockTimer { s with closeReason := reason, closed := true }, none, none⟩ := by
    obtain ⟨t, ht⟩ := disarm_eq { s with closeReason := reason, closed := true }
    rw [ht]
    exact .single (.frame t (.inr ⟨_, by rfl, .inr (congrArg St.timer ht.symm)⟩) true reason s.fired s.futures)
  generalize disarmDeadlockTimer { s with closeReason := reason, closed := true } = s0 at hs0 h0 ⊢
  refine h0.trans ((failReceivers_effects (.channel reason) s0.receivers.queue.reverse s0).trans ?_)
  obtain ⟨q, g, hch⟩ := failReceivers_chan (.channel reason) s0.receivers.queue.reverse s0
  generalize s0.receivers.queue.reverse.foldl (failReceiver (.channel reason)) s0 = s1 at hch ⊢
  rw [hs0] at hch
  obtain ⟨k, heq, hr, hw⟩ := failSenders_eq (.channel reason) s1.senders.queue.reverse s1
  have hwf : s1.senders.WF := by rw [hch]; exact hi.send.wf
  rw [foldl_erase_eq_nil _ _ hwf.nodup fun i hi => List.mem_reverse.2 hi] at heq
  simp only [List.mem_reverse] at hw
  rw [heq]
  rcases rollback_cases { s1 with senders := { s1.senders with queue := [] }, wakers := k } .close with
    ⟨hrb, hwhy⟩ | ⟨m, hm, hc, hrb⟩ <;> rw [hrb]
  · refine .single (.shut k hr hw ?_)
    rw [hch] at hwhy ⊢
    intro w x hw hx
    obtain ⟨y, hy, -, rfl⟩ := WaitQueue.live?_some hx
    cases hd : y.data.delivering with
    | false => rfl
    | true =>
      obtain ⟨-, hslot, hcom⟩ := hi.own hw hy hd
      simp [hslot, hcom] at hwhy
  · refine .single (.shutDrop k hr hw hm hc ?_ fun hq => ?_) <;> rw [hch] at hm hc
    · rw [hch]; exact hi.toMid.buffer_nil (hi.toMid.slot_capacity (by rw [show s.rendezvous = _ from hm]; nofun))
    · exact hQ hq (by simpa using hcl) m hm hc

/-! ## Every step -/

theorem step_effects {s' : St V} {l : Lbl V} (hi : Inv s.toChan) (hP : P → TokenCovered s l)
    (hQ : Q → CloseCovered s l) (hE : E → Exact s) (hs : step s l = some s') :
    Effects P Q E ⟨s, none, none⟩ ⟨s', none, none⟩ := by
  have ht := tick_inv hi
  cases step_move hs with
  | sendCancelled v => exact .head (.start .send v) (.single (.threw (c := ⟨⟨s.calls, .send, v⟩, .fresh⟩) _ nofun))
  | send v token hf =>
    refine .head (.start .send v) (transmit_effects ht.toMid ht.settled nofun (fun _ => rfl) fun _ _ _ _ _ => ?_)
    cases token <;> exact hf
  | sendAsync v => exact .head (.start .sendAsync v) (transmitAsync_effects ht rfl)
  | recvCancelled => exact .head .tick (.single (.note (.threw ..)))
  | recv | «foreach» => exact .head .tick (receive_effects ht.toMid (by nofun) _)
  | recvAsync => exact receiveAsync_effects hi
  | close | timer | resolveDeadlocks => exact close_effects hi _ hQ
  | runRecv w x hx hl => exact runReceiver_effects hi hx hl
  | runSend w x hx hl hq => exact runSender_effects hi hx hl hq hP hE
  | cancel side w => exact .single (wake_effect side w fun k => ⟨k.cancel_error, k.cancel_queued⟩)
  | tokenCancel side w => exact .single (wake_effect side w fun k => ⟨k.resume_some _, k.resume_queued _⟩)
  | fire => exact .single (.frame s.timer (.inl rfl) s.closed s.closeReason _ s.futures)
  | disposeQueued f w => exact .head (.removeRecv w) (setFuture_effects _ _ _)
  | dispose => exact setFuture_effects _ _ _

/-- What holds at the start and every effect keeps holds in every reachable
state. -/
theorem effects_inductive {I : Cfg V → Prop} (h0 : ∀ c p q hard answers, I ⟨fresh c p q hard answers, none, none⟩)
    (hI : ∀ c d, Effect False False False c d → I c → I d) :
    (lts V).Inductive fun s => Inv s.toChan ∧ I ⟨s, none, none⟩ := by
  refine inv_inductive.and (fun s hi => ?_) fun s l s' hi _ h hs => ?_
  · obtain ⟨c, p, q, hard, answers, rfl⟩ := init_fresh hi
    exact h0 c p q hard answers
  · exact Effects.keeps hI (step_effects hi False.elim False.elim False.elim hs) h

/-! ## Reservations over every run -/

def NoFault (s : St V) : Prop := ∀ f, Ev.fault f ∉ s.log

theorem NoFault.emit (h : NoFault s) {e : Ev V} (he : ∀ f, e ≠ .fault f) : NoFault (emit s e) := by
  intro f hf
  rcases List.mem_append.1 hf with hf | hf
  · exact h f hf
  · exact he f (List.mem_singleton.1 hf).symm

/-- No assertion of channel.c fails, no push finds the ring full and no take
finds the channel empty. -/
theorem Effect.noFault {c d : Cfg V} (he : Effect P Q E c d) (h : NoFault c.st) : NoFault d.st := by
  cases he with
  | note he => exact h.emit (by rintro f rfl; cases he)
  | deliver he => exact h.emit (by rintro f rfl; cases he)
  | serve | reserve | grantSend | accept | withdraw | shutDrop | sent | refused | threw => exact NoFault.emit h nofun
  | @take s => intro f; rw [takeValue_log]; exact h f
  | _ => exact h

theorem noFault_inductive : (lts V).Inductive fun s => Inv s.toChan ∧ NoFault s :=
  effects_inductive (I := fun c => NoFault c.st) (fun _ _ _ _ _ _ hf => nomatch hf) fun _ _ he => he.noFault

/-- A receiver that runs with its reservation, and without an exception, gets a
value. -/
theorem runReceiver_value (h : Inv s.toChan) {x : Waiter RecvWait} (hx : s.receivers.table[w]? = some x) (hl : x.live = true) (hr : x.reserved = true)
    (he : (s.wakers .recv w).error = none) : ∃ m, x.data.event m ∈ (runReceiver s w x.data).log := by
  obtain ⟨hm, -, -, hlt⟩ := resumeReceiver_mid h hx hl none
  have hspent : (resumeReceiver s w none).2 = true := by
    simp [resumeReceiver, WaitQueue.isReserved_some hx, hr]
  unfold runReceiver
  rw [he]
  dsimp only
  rw [hspent]
  generalize resumeReceiver s w none = r at hm hlt hspent
  rcases receive_cases hm (fun _ => hlt hspent) x.data with ⟨m, -, -, heq⟩ | ⟨hno, -⟩ | ⟨hno, -⟩
  · refine ⟨m, ?_⟩
    rw [heq, emit_log]
    exact List.mem_append_right _ (List.mem_singleton.2 rfl)
  · cases hno
  · cases hno

/-- **Reservation invariant.** In every reachable state the two counters are
backed by values and slots and count the queued reservations, the slot belongs
to the only delivering sender, nothing the code asserts has failed, and the
channel is not overfull. -/
theorem reservation_invariant (s : St V) (hr : (lts V).Reachable s) :
    s.receivers.reserved = s.receivers.queue.countP s.receivers.isReserved ∧
    s.receivers.reserved ≤ s.count ∧
    s.senders.reserved ≤ s.freeSpace ∧
    (s.closed = false → s.senders.reserved = s.senders.queue.countP s.senders.isReserved) ∧
    s.senders.queue.countP s.isDelivering ≤ 1 ∧
    (∀ w ∈ s.senders.queue, s.isDelivering w = true →
      s.rendezvous.isSome = true ∧ s.committed = false) ∧
    (∀ f, Ev.fault f ∉ s.log) ∧
    (∀ w x, s.receivers.table[w]? = some x → x.live = true → x.reserved = true →
      (s.wakers .recv w).error = none → ∃ m, x.data.event m ∈ (runReceiver s w x.data).log) ∧
    s.count ≤ (if 0 < s.capacity then s.capacity else 1) := by
  obtain ⟨hi, hf⟩ := noFault_inductive.reachable s hr
  exact ⟨WaitQueue.reserved_eq hi.recv.wf hi.rheld, hi.recv.backed, hi.send.backed,
    fun hc => WaitQueue.reserved_eq hi.send.wf (hi.sheld hc), hi.delivering_le_one,
    fun _ hw hd => hi.delivering_slot hw hd, hf,
    fun _ _ hx hl hres he => runReceiver_value hi hx hl hres he, hi.count_le⟩

/-- A receiver parked on a rendezvous channel, then `sendAsync(7)`: the value is
in the slot and reserved. -/
theorem reservation_invariant_matched :
    ∃ s : St Nat, s.receivers.reserved = 1 ∧ s.receivers.reserved ≤ s.count := by
  obtain ⟨s, hr, hp⟩ := exists_run (V := Nat) 0 (by decide) [.recv none, .sendAsync 7]
    (P := fun s => s.receivers.reserved = 1) (by decide +kernel)
  exact ⟨s, hp, (reservation_invariant s hr).2.1⟩

end PhpAsync.L2.Channel
