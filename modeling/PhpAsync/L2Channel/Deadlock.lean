import PhpAsync.L2Channel.Invariant

/-!
# `Async\Channel`: the deadlock timer

An armed timer should mean that somebody waits without a reservation on the side
its reason names (`Timed`), so that it never closes a channel nobody starves on.
channel.c calls `channel_refresh_deadlock_timer` after each change of a queue;
a refresh establishes `Timed` whatever was before (`refresh_timed`).

One change is not followed by a refresh: `channel_recv_future_dispose` takes the
waiter of a disposed future out of the queue and leaves the timer as it is.
`dispose_leaves_timer_armed` is a run in which it stays armed with both queues
empty and then closes the channel. `DisposeCovered` excludes exactly the
disposals of the last starving receiver under an armed `NO_PRODUCERS` timer, and
`timer_justified` shows `Timed` over every other run.
-/
namespace PhpAsync.L2.Channel

open PhpAsync.Core PhpAsync.L1

variable {V : Type}

/-- Somebody waits without a reservation on the side `reason` names. -/
def Justified (c : Chan V) (reason : CloseReason) : Prop :=
  (reason = .noProducers ∧ ∃ w ∈ c.receivers.queue, c.receivers.isReserved w = false) ∨
  (reason = .noConsumers ∧ ∃ w ∈ c.senders.queue, c.senders.isReserved w = false)

def Timed (s : St V) : Prop :=
  s.timer.armed = true → s.closed = false ∧ Justified s.toChan s.timer.reason

/-- A closed channel has no timer. -/
def Idle (s : St V) : Prop := s.closed = true → s.timer.armed = false

variable {a b w : Nat} {s : St V}

theorem Timed.idle (h : Timed s) : Idle s := by
  intro hc
  cases ha : s.timer.armed with
  | false => rfl
  | true => rw [(h ha).1] at hc; cases hc

theorem Timed.of_eq {t : St V} (h : Timed s) (hr : t.receivers = s.receivers) (hs : t.senders = s.senders)
    (hc : t.closed = s.closed) (ht : t.timer = s.timer) : Timed t := by
  intro ha
  rw [ht] at ha ⊢
  obtain ⟨hopen, hj⟩ := h ha
  refine ⟨by rw [hc]; exact hopen, ?_⟩
  unfold Justified
  rw [hr, hs]; exact hj

/-! ## A refresh -/

theorem disarm_armed (s : St V) : (disarmDeadlockTimer s).timer.armed = false := by
  unfold disarmDeadlockTimer
  split
  · rfl
  · rename_i h; simpa using h

/-- A timer that is armed after `channel_arm_deadlock_timer` was armed by it, on
an open channel, for the given reason. -/
theorem arm_armed {r : CloseReason} {n : Nat} (h0 : s.timer.armed = false)
    (h : (armDeadlockTimer s r n).timer.armed = true) :
    s.closed = false ∧ (armDeadlockTimer s r n).timer.reason = r := by
  unfold armDeadlockTimer at h ⊢
  split at h
  · rw [h0] at h; cases h
  · grind

theorem refresh_idle (h : Idle s) : Idle (refreshDeadlockTimer s) := by
  intro hc
  rw [refresh_toChan] at hc
  unfold refreshDeadlockTimer
  dsimp only
  split
  · exact disarm_armed s
  generalize (if decide (s.receivers.reserved < s.receivers.queue.length) = true then
    CloseReason.noProducers else .noConsumers) = r
  generalize (if decide (s.receivers.reserved < s.receivers.queue.length) = true then
    s.noProducerTimeoutMs else s.noConsumerTimeoutMs) = n
  split
  · exact h hc
  · grind [armDeadlockTimer, disarmDeadlockTimer]

/-- **A refresh leaves the timer justified.** -/
theorem refresh_timed (h : Idle s) (hr : s.receivers.WF) (hrh : s.receivers.Held) (hs : s.senders.WF)
    (hsh : s.closed = false → s.senders.Held) : Timed (refreshDeadlockTimer s) := by
  intro ha
  rw [refresh_toChan]
  unfold refreshDeadlockTimer at ha ⊢
  have hrecv : s.receivers.reserved < s.receivers.queue.length → Justified s.toChan .noProducers :=
    fun hlt => .inl ⟨rfl, (WaitQueue.reserved_lt_length hr hrh).1 hlt⟩
  have hsend : s.closed = false → s.senders.reserved < s.senders.queue.length →
      Justified s.toChan .noConsumers :=
    fun hc hlt => .inr ⟨rfl, (WaitQueue.reserved_lt_length hs (hsh hc)).1 hlt⟩
  have hopen : s.timer.armed = true → s.closed = false := by
    intro ha
    cases hc : s.closed with
    | false => rfl
    | true => rw [h hc] at ha; cases ha
  have hdis : (disarmDeadlockTimer s).closed = s.closed := by rw [disarm_toChan]
  by_cases hR : s.receivers.reserved < s.receivers.queue.length
  · -- a receiver starves
    simp only [hR, decide_true, Bool.not_true, Bool.false_and, Bool.false_eq_true, if_false,
      if_true] at ha ⊢
    split
    · grind
    · rename_i hnew
      rw [if_neg hnew] at ha
      obtain ⟨hc, hreason⟩ := arm_armed (disarm_armed s) ha
      rw [hreason]
      rw [hdis] at hc
      exact ⟨hc, hrecv hR⟩
  · by_cases hS : s.senders.reserved < s.senders.queue.length
    · -- only a sender starves
      simp only [hR, hS, decide_true, decide_false, Bool.not_true, Bool.not_false, Bool.true_and,
        Bool.false_eq_true, if_false] at ha ⊢
      split
      · grind
      · rename_i hnew
        rw [if_neg hnew] at ha
        obtain ⟨hc, hreason⟩ := arm_armed (disarm_armed s) ha
        rw [hreason]
        rw [hdis] at hc
        exact ⟨hc, hsend hc hS⟩
    · simp only [hR, hS, decide_false, Bool.not_false, Bool.and_self, if_true] at ha
      rw [disarm_armed] at ha; cases ha

theorem Mid.refresh_timed (hm : Mid a b s.toChan) (h : Idle s) : Timed (refreshDeadlockTimer s) :=
  Channel.refresh_timed h hm.recv.wf hm.rheld hm.send.wf hm.sheld

/-! ## Waking -/

theorem Idle.wakeSender (h : Idle s) : Idle (wakeSender s) := by
  have h1 : Idle (wakeDeliveredSender s) := by
    rcases wakeDeliveredSender_cases s with ⟨heq, -⟩ | ⟨w, -, -, -, -, heq⟩ <;> rw [heq]
    · exact h
    · exact refresh_idle h
  unfold Channel.wakeSender
  rcases grantSlot_cases (wakeDeliveredSender s) with ⟨heq, -⟩ | ⟨w, -, -, heq⟩ <;> rw [heq]
  · exact h1
  · exact refresh_idle h1

theorem Timed.wakeSender (h : Timed s) (hm : Mid a (b + 1) s.toChan) : Timed (wakeSender s) := by
  have h1 : Timed (wakeDeliveredSender s) := by
    have hm1 := (wakeDeliveredSender_mid hm).1
    rcases wakeDeliveredSender_cases s with ⟨heq, -⟩ | ⟨w, -, -, -, -, heq⟩
    · rw [heq]; exact h
    · rw [heq, refresh_toChan] at hm1
      rw [heq]; exact hm1.refresh_timed h.idle
  have hm2 := (wakeSender_mid hm).1
  unfold Channel.wakeSender at hm2 ⊢
  rcases grantSlot_cases (wakeDeliveredSender s) with ⟨heq, -⟩ | ⟨w, -, -, heq⟩
  · rw [heq]; exact h1
  · rw [heq, refresh_toChan] at hm2
    rw [heq]; exact hm2.refresh_timed h1.idle

theorem Idle.completeFuture (h : Idle s) (w f : Nat) :
    Idle (completeFuture (takeValue (dequeueReceiver s w)).1 f
      (takeValue (dequeueReceiver s w)).2) := by
  obtain ⟨l, o, b, htake⟩ := takeValue_rest (dequeueReceiver s w)
  rw [htake]
  unfold Channel.completeFuture
  split <;> exact h

theorem Idle.wakeReceiver (h : Idle s) : Idle (wakeReceiver s).1 := by
  rcases wakeReceiver_cases s with ⟨heq, -⟩ | ⟨w, -, -, ⟨f, -, heq⟩ | ⟨-, heq⟩⟩ <;> rw [heq]
  · exact h
  · dsimp only [serveFuture]
    exact refresh_idle (h.completeFuture w f).wakeSender
  · exact refresh_idle h

theorem Timed.wakeReceiver (h : Timed s) (hm : Mid (a + 1) b s.toChan) (hs : Settled s.toChan) :
    Timed (wakeReceiver s).1 := by
  have hm2 := (wakeReceiver_mid hm hs).1
  rcases wakeReceiver_cases s with ⟨heq, -⟩ | ⟨w, -, -, ⟨f, -, heq⟩ | ⟨-, heq⟩⟩
  · rw [heq]; exact h
  · rw [heq] at hm2 ⊢
    dsimp only [serveFuture] at hm2 ⊢
    rw [refresh_toChan] at hm2
    exact hm2.refresh_timed (h.idle.completeFuture w f).wakeSender
  · rw [heq] at hm2 ⊢
    dsimp only [reserveValue] at hm2 ⊢
    rw [refresh_toChan] at hm2
    exact hm2.refresh_timed h.idle

/-! ## Methods -/

theorem Timed.waitForData (h : Timed s) (hm : Mid a b s.toChan) (x : RecvWait) : Timed (waitForData s x) := by
  unfold Channel.waitForData
  split
  · exact h.of_eq rfl rfl rfl rfl
  · have h1 : Timed (refreshDeadlockTimer { s with receivers := s.receivers.push x }) :=
      refresh_timed h.idle (WaitQueue.wf_push hm.recv.wf x) (WaitQueue.held_push hm.rheld x)
        hm.send.wf hm.sheld
    generalize refreshDeadlockTimer { s with receivers := s.receivers.push x } = t at h1 ⊢
    exact h1.of_eq rfl rfl rfl rfl

theorem Timed.waitForSend (h : Timed s) (hm : Mid a b s.toChan) (x : SendWait V) : Timed (waitForSend s x) := by
  unfold Channel.waitForSend
  split
  · exact h.of_eq rfl rfl rfl rfl
  · have h1 : Timed (refreshDeadlockTimer { s with senders := s.senders.push x }) :=
      refresh_timed h.idle hm.recv.wf hm.rheld (WaitQueue.wf_push hm.send.wf x)
        (fun hc => WaitQueue.held_push (hm.sheld hc) x)
    generalize refreshDeadlockTimer { s with senders := s.senders.push x } = t at h1 ⊢
    exact h1.of_eq rfl rfl rfl rfl

theorem Timed.takeValue (h : Timed s) : Timed (takeValue s).1 := by
  obtain ⟨l, o, b, heq⟩ := takeValue_rest s
  rw [heq]; exact h.of_eq rfl rfl rfl rfl

theorem Timed.emit (h : Timed s) (e : Ev V) : Timed (emit s e) :=
  h.of_eq rfl rfl rfl rfl

theorem receive_timed (h : Timed s) (hm : Mid a 0 s.toChan) {has : Bool}
    (hv : has = true → s.receivers.reserved < s.count) (x : RecvWait) : Timed (receive s x has) := by
  rcases receive_cases hm hv x with ⟨m, hlt, -, heq⟩ | ⟨-, -, -, heq | heq⟩ | ⟨-, -, -, heq⟩ <;>
    rw [heq]
  · exact (h.takeValue.wakeSender (takeValue_mid hm hlt).1).emit _
  · exact h.emit _
  · exact h.emit _
  · exact h.waitForData hm x

theorem receiveAsync_timed (h : Timed s) (hi : Inv s.toChan) : Timed (receiveAsync (tick s) s.calls) := by
  have h1 : Timed (withFuture s) := h.of_eq rfl rfl rfl rfl
  rcases receiveAsync_cases hi with ⟨m, hlt, -, -, heq⟩ | ⟨-, -, heq⟩ | ⟨-, -, heq⟩ <;> rw [heq]
  · have h2 := h1.takeValue.wakeSender (takeValue_mid (withFuture_inv hi).toMid hlt).1
    generalize wakeSender (Channel.takeValue (withFuture s)).1 = t at h2 ⊢
    exact h2.of_eq rfl rfl rfl rfl
  · exact h1.of_eq rfl rfl rfl rfl
  · -- the new waiter is one more that starves
    intro ha
    obtain ⟨hc, hj⟩ := h ha
    refine ⟨hc, hj.imp_left fun ⟨hreason, w, hw, hres⟩ => ⟨hreason, w, ?_, ?_⟩⟩
    · exact List.mem_append_left _ hw
    · exact (WaitQueue.isReserved_push _ _ w).trans hres

theorem offer_timed (h : Timed s) (hm : Mid 0 b s.toChan) (hs : Settled s.toChan) (h0 : s.capacity = 0)
    (hf : s.senders.reserved < s.freeSpace) (m : Msg V) : Timed (offer s m).1 := by
  have h1 : Timed (Channel.emit { s with rendezvous := some m, committed := false } (.accepted m)) :=
    h.of_eq rfl rfl rfl rfl
  have h2 := h1.wakeReceiver (storeSlot_mid hm h0 hf hs m) nofun
  unfold offer
  dsimp only
  generalize wakeReceiver (Channel.emit { s with rendezvous := some m, committed := false }
    (.accepted m)) = r at h2 ⊢
  split
  · exact h2.of_eq rfl rfl rfl rfl
  · exact h2

theorem pushBuffer_timed (h : Timed s) (hm : Mid 0 b s.toChan) (hs : Settled s.toChan) (hpos : 0 < s.capacity)
    (hf : s.senders.reserved < s.freeSpace) (m : Msg V) :
    Timed (Channel.emit (wakeReceiver (pushBuffer s m)).1 (.sent m.call)) := by
  have h1 : Timed (pushBuffer s m) := by
    rw [pushBuffer_eq hpos hf m]; exact h.of_eq rfl rfl rfl rfl
  have hs1 : Settled (pushBuffer s m).toChan := by rw [pushBuffer_eq hpos hf m]; exact hs
  exact (h1.wakeReceiver (pushBuffer_mid hm hpos hf m) hs1).emit _

theorem transmit_timed (h : Timed s) (hm : Mid 0 b s.toChan) (hb : b ≤ 1) (hs : Settled s.toChan)
    {m : Msg V} {token : Option Nat} {has : Bool} (hv : has = true → s.senders.reserved < s.freeSpace) :
    Timed (transmit s m token has) := by
  rcases transmit_cases hm hv m token with ⟨-, heq⟩ | ⟨-, hlt, hpos, heq⟩ | ⟨-, hlt, h0, -, heq⟩ |
    ⟨-, hlt, h0, -, heq⟩ | ⟨-, -, -, heq⟩ <;> rw [heq]
  · exact h.emit _
  · exact pushBuffer_timed h hm hs hpos hlt m
  · exact (offer_timed h hm hs h0 hlt m).emit _
  · exact (offer_timed h hm hs h0 hlt m).waitForSend
      (offer_inv hm hb hs h0 hlt m).1.toMid _
  · exact h.waitForSend hm _

theorem transmitAsync_timed (h : Timed s) (hi : Inv s.toChan) (m : Msg V) : Timed (transmitAsync s m) := by
  rcases transmitAsync_cases s m with heq | ⟨-, hlt, hpos, heq⟩ | ⟨-, hlt, h0, heq⟩ <;> rw [heq]
  · exact h.emit _
  · exact pushBuffer_timed h hi.toMid hi.settled hpos hlt m
  · exact (offer_timed h hi.toMid hi.settled h0 hlt m).emit _

/-- Every woken waiter ends with a refresh. -/
theorem resumeReceiver_timed (h : Timed s) (hi : Inv s.toChan) {x : Waiter RecvWait} (hx : s.receivers.table[w]? = some x)
    (hl : x.live = true) (e : Option Exn) : Timed (resumeReceiver s w e).1 := by
  have hm := (resumeReceiver_mid hi hx hl e).1
  have hidle : Idle (leaveReceiver s w) := h.idle
  rcases resumeReceiver_cases hi hx hl e with ⟨hr, -, -, heq⟩ | ⟨-, heq⟩
  · rw [heq] at hm ⊢
    rw [refresh_toChan] at hm
    exact hm.refresh_timed hidle.wakeReceiver
  · rw [heq] at hm ⊢
    rw [refresh_toChan] at hm
    exact hm.refresh_timed hidle

theorem runReceiver_timed (h : Timed s) (hi : Inv s.toChan) {x : Waiter RecvWait} (hx : s.receivers.table[w]? = some x)
    (hl : x.live = true) : Timed (runReceiver s w x.data) := by
  unfold runReceiver
  generalize (s.wakers .recv w).error = e
  have h1 := resumeReceiver_timed h hi hx hl e
  obtain ⟨hm, -, -, hlt⟩ := resumeReceiver_mid hi hx hl e
  cases e with
  | none => exact receive_timed h1 hm hlt x.data
  | some ex =>
    dsimp only [receiverFails]
    split <;> exact h1.emit _

theorem rollback_timer (s : St V) (why : Rollback) : (rollback s why).timer = s.timer := by
  rcases rollback_cases s why with ⟨heq, -⟩ | ⟨m, -, -, heq⟩ <;> rw [heq]
  rfl

theorem resumeSender_timed (h : Timed s) (hi : Inv s.toChan) {x : Waiter (SendWait V)} (hx : s.senders.table[w]? = some x)
    (hl : x.live = true) (e : Option Exn) : Timed (resumeSender s w e).1 := by
  have hm := (resumeSender_mid hi hx hl e).1
  have hidle : Idle (leaveSender s w) := h.idle
  have hroll : Idle (rollback (leaveSender s w) .cancelledSender) := by
    intro hc
    rw [rollback_closed] at hc
    rw [rollback_timer]; exact hidle hc
  rcases resumeSender_cases hi hx hl e with ⟨-, -, -, heq⟩ | ⟨-, heq⟩ | ⟨-, -, heq⟩ <;>
    rw [heq] at hm ⊢ <;> dsimp only at hm ⊢ <;> rw [refresh_toChan] at hm
  · exact hm.refresh_timed hroll.wakeSender
  · exact hm.refresh_timed hidle.wakeSender
  · exact hm.refresh_timed hidle

theorem runSender_timed (h : Timed s) (hi : Inv s.toChan) {x : Waiter (SendWait V)} (hx : s.senders.table[w]? = some x)
    (hl : x.live = true) : Timed (runSender s w x.data) := by
  unfold runSender
  dsimp only
  generalize (s.wakers .send w).error = e
  have h1 := resumeSender_timed h hi hx hl e
  obtain ⟨hm, hs, -, hlt⟩ := resumeSender_mid hi hx hl e
  split
  · exact h1.emit _
  · split
    · exact h1.emit _
    · exact transmit_timed h1 hm (by split <;> omega) hs hlt

theorem failReceivers_timer (e : Exn) :
    ∀ (l : List Nat) (s : St V), (l.foldl (failReceiver e) s).timer = s.timer
  | [], _ => rfl
  | w :: l, s => by
    rw [List.foldl_cons, failReceivers_timer e l]
    unfold failReceiver
    split
    · rfl
    split
    · unfold rejectFuture
      split <;> rfl
    · rfl

theorem close_timed (h : Timed s) (reason : CloseReason) : Timed (close s reason) := by
  unfold close
  split
  · exact h
  · intro ha
    dsimp only [wakeAll] at ha
    obtain ⟨k, heq, -⟩ := failSenders_eq (.channel reason) _ _
    rw [rollback_timer, heq, failReceivers_timer, disarm_armed] at ha
    cases ha

/-! ## Disposal of a waiting future -/

/-- Under an armed `NO_PRODUCERS` timer, the waiter of the disposed future is not
the last receiver that starves. -/
def DisposeCovered (s : St V) : Lbl V → Prop
  | .dispose f =>
    match s.futures f with
    | .pending (some w) => s.timer.armed = true → s.timer.reason = .noProducers →
        ∃ v ∈ s.receivers.queue, v ≠ w ∧ s.receivers.isReserved v = false
    | _ => True
  | _ => True

instance (s : St V) : ∀ l, Decidable (DisposeCovered s l)
  | .dispose f => by unfold DisposeCovered; dsimp only; split <;> infer_instance
  | .send .. | .sendAsync .. | .recv .. | .recvAsync | .foreach | .close .. | .cancel ..
  | .run .. | .fire .. | .tokenCancel .. | .timer | .resolveDeadlocks => isTrue trivial

theorem step_timed {s' : St V} {l : Lbl V} (hi : Inv s.toChan) (h : Timed s) (hg : DisposeCovered s l)
    (hs : step s l = some s') : Timed s' := by
  have hit := tick_inv hi
  have ht : Timed (tick s) := h.of_eq rfl rfl rfl rfl
  cases step_move hs with
  | sendCancelled | recvCancelled => exact ht.emit _
  | send => exact transmit_timed ht hit.toMid (Nat.zero_le _) hit.settled nofun
  | sendAsync => exact transmitAsync_timed ht hit _
  | recv | «foreach» => exact receive_timed ht hit.toMid (by nofun) _
  | recvAsync => exact receiveAsync_timed h hi
  | close | timer | resolveDeadlocks => exact close_timed h _
  | runRecv w x hx hl => exact runReceiver_timed h hi hx hl
  | runSend w x hx hl => exact runSender_timed h hi hx hl
  | cancel | fire | tokenCancel | dispose => exact h.of_eq rfl rfl rfl rfl
  | disposeQueued f w hf =>
    intro ha
    obtain ⟨hc, hj⟩ := h ha
    refine ⟨hc, hj.imp_left fun ⟨hreason, _⟩ => ⟨hreason, ?_⟩⟩
    simp only [DisposeCovered, hf] at hg
    obtain ⟨v, hv, hne, hres⟩ := hg ha hreason
    exact ⟨v, hi.recv.wf.mem_erase.2 ⟨hne, hv⟩, hres⟩

/-- The condition is sharp: a disposal outside it leaves a timer that nobody
justifies. -/
theorem not_timed_of_uncovered {s' : St V} {f : Nat} (hi : Inv s.toChan) (hg : ¬ DisposeCovered s (.dispose f))
    (hs : step s (.dispose f) = some s') : ¬ Timed s' := by
  intro ht
  cases step_move hs with
  | dispose _ _ hf => grind [DisposeCovered]
  | disposeQueued _ w hf =>
    simp only [DisposeCovered, hf] at hg
    apply hg
    intro ha hreason
    rcases (ht ha).2 with ⟨-, v, hv, hres⟩ | ⟨hc, -⟩
    · obtain ⟨hne, hmem⟩ := hi.recv.wf.mem_erase.1 hv
      exact ⟨v, hmem, hne, hres⟩
    · have hc' : s.timer.reason = .noConsumers := hc
      rw [hreason] at hc'
      cases hc'

theorem timed_inductive :
    ((lts V).restrict DisposeCovered).Inductive fun s => Inv s.toChan ∧ Timed s := by
  refine (inv_inductive.restrict _).and (fun s hi => ?_)
    (fun s l s' hi _ h hs => step_timed hi h hs.1 hs.2)
  obtain ⟨c, p, q, hard, answers, rfl⟩ := init_fresh hi
  intro ha
  cases ha

/-- **Counterexample.** A future and a coroutine wait, the coroutine is
cancelled, the future is disposed of: both queues are empty and the timer is
armed for `NO_PRODUCERS`. When it fires, the open channel is closed. -/
theorem dispose_leaves_timer_armed :
    ∃ s s' : St Nat, (lts Nat).Reachable s ∧ s.timer.armed = true ∧
      s.timer.reason = .noProducers ∧ s.closed = false ∧ s.receivers.queue = [] ∧
      s.senders.queue = [] ∧ step s .timer = some s' ∧ s'.closed = true := by
  obtain ⟨s, hr, ha, hreason, hc, hq, hq', hst⟩ := exists_run (V := Nat) 0 (by decide)
    [.recvAsync, .recv none, .cancel .recv 1, .run .recv 1, .dispose 0]
    (P := fun s => s.timer.armed = true ∧ s.timer.reason = .noProducers ∧ s.closed = false ∧
      s.receivers.queue = [] ∧ s.senders.queue = [] ∧ (step s .timer).any (·.closed) = true) (by decide +kernel)
  cases hs : step s .timer with
  | none => rw [hs] at hst; cases hst
  | some s' =>
    rw [hs] at hst
    exact ⟨s, s', hr, ha, hreason, hc, hq, hq', hs, hst⟩

/-- **The timer is justified.** In every run in which no disposal takes away the
last starving receiver under an armed `NO_PRODUCERS` timer, an armed timer means
that the channel is open and that a waiter without a reservation is queued on
the side its reason names. -/
theorem timer_justified (s : St V) (hr : ((lts V).restrict DisposeCovered).Reachable s)
    (ha : s.timer.armed = true) :
    s.closed = false ∧
      ((s.timer.reason = .noProducers ∧
          ∃ w ∈ s.receivers.queue, s.receivers.isReserved w = false) ∨
        (s.timer.reason = .noConsumers ∧
          ∃ w ∈ s.senders.queue, s.senders.isReserved w = false)) :=
  (timed_inductive.reachable s hr).2 ha

/-- A future is disposed of while a second receiver starves. -/
theorem timer_justified_dispose :
    ∃ s : St Nat, s.timer.armed = true ∧ s.futures 0 = .disposed ∧ s.closed = false := by
  obtain ⟨s, hr, ha, hf⟩ := exists_restricted_run (V := Nat) DisposeCovered 0 (by decide)
    [.recvAsync, .recv none, .dispose 0]
    (P := fun s => s.timer.armed = true ∧ s.futures 0 = .disposed) (by decide +kernel)
  exact ⟨s, ha, hf, (timer_justified s hr ha).1⟩

end PhpAsync.L2.Channel
