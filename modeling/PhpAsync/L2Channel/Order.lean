import PhpAsync.L2Channel.Calls

/-!
# `Async\Channel`: service order

Reservations go to waiters in the order in which they were queued (`Served`, on
both sides), through cancellations, hand-ons and futures served in place; and a
call that does not wait takes nothing anybody queued is waiting for.

* `order_inductive`: `Order` holds in every reachable state.
* `service_order`: grants in arrival order, no barging.
-/
namespace PhpAsync.L2.Channel

open PhpAsync.Core PhpAsync.L1

variable {V : Type}

def Ev.grantOn? (side : Side) : Ev V → Option Nat
  | .granted d w => if d = side then some w else none
  | _ => none

/-- The waiters of one side that were given something, in that order. -/
def grants (side : Side) (log : List (Ev V)) : List Nat := log.filterMap (Ev.grantOn? side)

structure Order (s : St V) : Prop where
  recv : s.receivers.Served (fun _ => false) (grants .recv s.log)
  send : s.senders.Served (·.delivering) (grants .send s.log)

variable {l : Lbl V} {r : List (Ev V)} {s s' t : St V}

/-- An event that is no grant. -/
theorem Order.note (h : Order s) {e : Ev V} (hq : (t.receivers, t.senders) = (s.receivers, s.senders))
    (hl : t.log = s.log ++ [e]) (he : ∀ d, e.grantOn? d = none) : Order t := by
  simp only [Prod.mk.injEq] at hq
  have hg : ∀ d, grants d t.log = grants d s.log := fun d => by simp [grants, hl, he d]
  refine ⟨?_, ?_⟩
  · rw [hq.1, hg]; exact h.recv
  · rw [hq.2, hg]; exact h.send

/-- Receiver `w`, the oldest free one, is given a value. -/
theorem Order.grantReceiver {w : Nat} (h : Order s) {q : WaitQueue RecvWait}
    (hq : q.Served (fun _ => false) (grants .recv s.log ++ [w])) :
    Order (emit { s with receivers := q } (.granted .recv w)) :=
  ⟨by simpa [grants, Ev.grantOn?] using hq, by simpa [grants, Ev.grantOn?] using h.send⟩

theorem Effect.order {P Q E : Prop} {c d : Cfg V} (he : Effect P Q E c d) (h : Order c.st) : Order d.st := by
  cases he with
  | frame | wake | start | tick | commit => exact ⟨h.recv, h.send⟩
  | note he => cases he <;> exact h.note rfl rfl fun _ => rfl
  | @deliver _ _ _ e he => cases e <;> cases he <;> exact h.note rfl rfl fun _ => rfl
  | accept | withdraw | sent | refused | threw => exact h.note rfl rfl fun _ => rfl
  | pushRecv x => exact ⟨h.recv.push x, h.send⟩
  | removeRecv w => exact ⟨h.recv.remove w, h.send⟩
  | leaveRecv w => exact ⟨h.recv.leave w, h.send⟩
  | serve w hq hw => exact h.grantReceiver (h.recv.dequeue hq hw)
  | reserve w hq hw =>
    have hg := h.grantReceiver (h.recv.grant hq hw)
    exact ⟨hg.recv, hg.send⟩
  | @take s =>
    obtain ⟨l, o, b, ht⟩ := takeValue_rest s
    rw [ht]; exact ⟨h.recv, h.send⟩
  | unpark w => exact ⟨h.recv, h.send.remove w⟩
  | grantSend w hq hw =>
    exact ⟨by simpa [grants, Ev.grantOn?] using h.recv, by simpa [grants, Ev.grantOn?] using h.send.grant hq hw⟩
  | pushSend x => exact ⟨h.recv, h.send.push x⟩
  | @leaveSend _ _ w => exact ⟨h.recv, h.send.leave w⟩
  | shut => exact ⟨h.recv, h.send.sorted, h.send.known, fun _ _ _ hv => (nomatch hv)⟩
  | @shutDrop s m wakers =>
    have hs : Order { s with senders := { s.senders with queue := [] }, wakers, rendezvous := none } :=
      ⟨h.recv, h.send.sorted, h.send.known, fun _ _ _ hv => (nomatch hv)⟩
    exact hs.note rfl rfl fun _ => rfl

theorem order_inductive : (lts V).Inductive fun s => Inv s.toChan ∧ Order s := by
  refine effects_inductive (I := fun c => Order c.st) (fun c p q hard answers => ?_) fun _ _ he => he.order
  exact ⟨⟨.nil, fun _ hg => (nomatch hg), fun _ hg => (nomatch hg)⟩,
    ⟨.nil, fun _ hg => (nomatch hg), fun _ hg => (nomatch hg)⟩⟩

/-! ## No barging -/

/-- What a step adds to the log. -/
def newEvents (s s' : St V) : List (Ev V) := s'.log.drop s.log.length

theorem newEvents_eq (h : s'.log = s.log ++ r) : newEvents s s' = r := by
  unfold newEvents
  rw [h, List.drop_left]

/-- The call that gets a value here. -/
def Ev.takenBy? : Ev V → Option Nat
  | .received k _ => some k
  | .element k _ => some k
  | .completed k _ => some k
  | _ => none

/-- A call of `recv()` or `recvAsync()`, or a `foreach` step. -/
def Lbl.receives : Lbl V → Bool
  | .recv _ | .foreach | .recvAsync => true
  | _ => false

/-- A call of `send()` or `sendAsync()`. -/
def Lbl.sends : Lbl V → Bool
  | .send _ _ | .sendAsync _ => true
  | _ => false

theorem waitForData_log (s : St V) (x : RecvWait) :
    ∃ r, (waitForData s x).log = s.log ++ r ∧ ∀ e ∈ r, e.takenBy? = none := by
  unfold waitForData
  split
  · refine ⟨[_], emit_log _ _, fun e he => ?_⟩
    rw [List.mem_singleton.1 he]; rfl
  · exact ⟨[], by simp, fun e he => (List.not_mem_nil he).elim⟩

theorem waitForSend_log (s : St V) (x : SendWait V) :
    ∃ r, (waitForSend s x).log = s.log ++ r ∧ ∀ e ∈ r, e.accepted? = none := by
  unfold waitForSend
  split
  · refine ⟨[_], emit_log _ _, fun e he => ?_⟩
    rw [List.mem_singleton.1 he]; rfl
  · exact ⟨[], by simp, fun e he => (List.not_mem_nil he).elim⟩

/-- A call that receives takes a free value or gets none in this step. -/
theorem receives_free (hi : Inv s.toChan) (hs : step s l = some s') (hl : l.receives = true) :
    s.receivers.reserved < s.count ∨ ∀ e ∈ newEvents s s', e.takenBy? = none := by
  have hm := (tick_inv hi).toMid
  have hone : ∀ (t : St V) (e' : Ev V), t.log = s.log → e'.takenBy? = none →
      ∀ e ∈ newEvents s (emit t e'), e.takenBy? = none := by
    intro t e' ht he' e he
    have : (emit t e').log = s.log ++ [e'] := by rw [emit_log, ht]
    rw [newEvents_eq this, List.mem_singleton] at he
    rw [he]; exact he'
  have hrecv : ∀ x : RecvWait, s.receivers.reserved < s.count ∨
      ∀ e ∈ newEvents s (receive (tick s) x false), e.takenBy? = none := by
    intro x
    have hv : false = true → (tick s).receivers.reserved < (tick s).count := fun hf => by cases hf
    rcases receive_cases hm hv x with
      ⟨m, hlt, -, -⟩ | ⟨-, -, -, heq | heq⟩ | ⟨-, -, -, heq⟩
    · exact .inl hlt
    · rw [heq]; exact .inr (hone (tick s) _ rfl rfl)
    · rw [heq]; exact .inr (hone (tick s) _ rfl rfl)
    · obtain ⟨r, hlog, hr⟩ := waitForData_log (tick s) x
      rw [heq]
      refine .inr (fun e he => ?_)
      rw [newEvents_eq (s := s) hlog] at he
      exact hr e he
  cases step_move hs with
  | recvCancelled => exact .inr (hone (tick s) _ rfl rfl)
  | recv | «foreach» => exact hrecv _
  | recvAsync =>
    rcases receiveAsync_cases hi with ⟨m, hlt, -, -, -⟩ | ⟨-, -, heq⟩ | ⟨-, -, heq⟩
    · exact .inl hlt
    · rw [heq]; exact .inr (hone _ _ rfl rfl)
    · rw [heq]
      refine .inr (fun e he => ?_)
      have hlog : (setFuture { withFuture s with
          receivers := s.receivers.push ⟨s.calls, .future, none⟩ } s.calls
          (.pending (some s.receivers.table.length))).log = s.log ++ [] :=
        (List.append_nil s.log).symm
      rw [newEvents_eq hlog] at he
      exact (List.not_mem_nil he).elim
  | _ => cases hl

/-- A call that sends takes a free slot or none in this step. -/
theorem sends_free (hi : Inv s.toChan) (hs : step s l = some s') (hl : l.sends = true) :
    s.senders.reserved < s.freeSpace ∨ ∀ e ∈ newEvents s s', e.accepted? = none := by
  have hm := (tick_inv hi).toMid
  have hone : ∀ e' : Ev V, e'.accepted? = none →
      ∀ e ∈ newEvents s (emit (tick s) e'), e.accepted? = none := by
    intro e' he' e he
    rw [newEvents_eq (s := s) (emit_log (tick s) e'), List.mem_singleton] at he
    rw [he]; exact he'
  cases step_move hs with
  | sendCancelled => exact .inr (hone _ rfl)
  | send v token =>
    have hv : false = true → (tick s).senders.reserved < (tick s).freeSpace :=
      fun hf => by cases hf
    rcases transmit_cases hm hv ⟨s.calls, .send, v⟩ token with
      ⟨-, heq⟩ | ⟨-, hlt, -, -⟩ | ⟨-, hlt, -, -, -⟩ | ⟨-, hlt, -, -, -⟩ | ⟨-, -, -, heq⟩
    · rw [heq]; exact .inr (hone _ rfl)
    · exact .inl hlt
    · exact .inl hlt
    · exact .inl hlt
    · obtain ⟨r, hlog, hr⟩ := waitForSend_log (tick s) ⟨⟨s.calls, .send, v⟩, token, false⟩
      rw [heq]
      refine .inr (fun e he => ?_)
      rw [newEvents_eq (s := s) hlog] at he
      exact hr e he
  | sendAsync v =>
    rcases transmitAsync_cases (tick s) ⟨s.calls, .sendAsync, v⟩ with
      heq | ⟨-, hlt, -, -⟩ | ⟨-, hlt, -, -⟩
    · rw [heq]; exact .inr (hone _ rfl)
    · exact .inl hlt
    · exact .inl hlt
  | _ => cases hl

/-- **Service order.** In every reachable state, values and slots were given to
the waiters of each side in arrival order, and to each of them before any waiter
still queued without a reservation. And nobody barges: a call that takes a value
or a slot at once finds every waiter of its side reserved, or delivering. -/
theorem service_order (s : St V) (hr : (lts V).Reachable s) :
    (grants .recv s.log).Pairwise (· < ·) ∧
    (grants .send s.log).Pairwise (· < ·) ∧
    (∀ g ∈ grants .recv s.log, ∀ v ∈ s.receivers.queue, s.receivers.isReserved v = false → g < v) ∧
    (∀ g ∈ grants .send s.log, ∀ v ∈ s.senders.queue, s.senders.isReserved v = false →
      s.isDelivering v = false → g < v) ∧
    (∀ l s', step s l = some s' → l.receives = true →
      (∃ e ∈ newEvents s s', e.takenBy? = some s.calls) →
      ∀ w ∈ s.receivers.queue, s.receivers.isReserved w = true) ∧
    (∀ l s', step s l = some s' → l.sends = true →
      (∃ e ∈ newEvents s s', ∃ m, e.accepted? = some m ∧ m.call = s.calls) →
      ∀ w ∈ s.senders.queue, s.senders.isReserved w = true ∨ s.isDelivering w = true) := by
  obtain ⟨hi, ho⟩ := order_inductive.reachable s hr
  refine ⟨ho.recv.sorted, ho.send.sorted, ?_, ?_, ?_, ?_⟩
  · intro g hg v hv hres
    obtain ⟨x, hx, -⟩ := hi.recv.wf.known v hv
    rw [WaitQueue.isReserved_some hx] at hres
    exact ho.recv.next g hg v hv (WaitQueue.isFree_of hx hres rfl)
  · intro g hg v hv hres hdel
    obtain ⟨x, hx, -⟩ := hi.send.wf.known v hv
    rw [WaitQueue.isReserved_some hx] at hres
    rw [isDelivering_of hx] at hdel
    exact ho.send.next g hg v hv (WaitQueue.isFree_of hx hres hdel)
  · intro l s' hs hl ⟨e, he, htaken⟩ w hw
    rcases receives_free hi hs hl with hlt | hnone
    · obtain ⟨x, hx, -⟩ := hi.recv.wf.known w hw
      rw [WaitQueue.isReserved_some hx]
      cases hres : x.reserved with
      | true => rfl
      | false =>
        exact (hi.recv.not_starving hlt ⟨w, hw, WaitQueue.isFree_of hx hres rfl⟩).elim
    · rw [hnone e he] at htaken; cases htaken
  · intro l s' hs hl ⟨e, he, m, hacc, _⟩ w hw
    rcases sends_free hi hs hl with hlt | hnone
    · obtain ⟨x, hx, -⟩ := hi.send.wf.known w hw
      rw [WaitQueue.isReserved_some hx, isDelivering_of hx]
      cases hres : x.reserved with
      | true => exact .inl rfl
      | false =>
        cases hdel : x.data.delivering with
        | true => exact .inr rfl
        | false =>
          exact (hi.send.not_starving hlt ⟨w, hw, WaitQueue.isFree_of hx hres hdel⟩).elim
    · rw [hnone e he] at hacc; cases hacc

/-- Three receivers wait, the second is cancelled: the next two values go to the
first and the third. -/
theorem service_order_cancelled :
    ∃ s : St Nat, grants .recv s.log = [0, 2] ∧ (grants .recv s.log).Pairwise (· < ·) := by
  obtain ⟨s, hr, hp⟩ := exists_run (V := Nat) 1 (by decide)
    [.recv none, .recv none, .recv none, .cancel .recv 1, .run .recv 1, .sendAsync 7,
      .run .recv 0, .sendAsync 8] (P := fun s => grants .recv s.log = [0, 2]) (by decide +kernel)
  exact ⟨s, hp, (service_order s hr).1⟩

end PhpAsync.L2.Channel
