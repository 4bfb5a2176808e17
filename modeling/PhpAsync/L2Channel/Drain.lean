import PhpAsync.L2Channel.Outcome

/-!
# `Async\Channel`: a closed channel is drained

`channel_close` leaves the buffer, and a committed value in the slot, to the
receivers. A value that is promised to a receiver is taken by that receiver when
it runs, every other one by the next `recv()`; a receiver that was cancelled
gives its promise back. So from every closed state a run of receivers only
empties the channel, in order (`drain_run`). It needs that a promise always comes
with a wakeup (`Woken`).

* `closed_strands_nobody`: who still waits is served.
* `sent_survives_close`: a value reported as sent is delivered or still there,
  and after a close it can be drained.
-/
namespace PhpAsync.L2.Channel

open PhpAsync.Core PhpAsync.L1

variable {V : Type}

/-! ## A reserved receiver is woken -/

/-- What the receivers wait on: their queue and their wakers. -/
structure Bell where
  receivers : WaitQueue RecvWait
  wakers : Nat → Waker

def bell (s : St V) : Bell := ⟨s.receivers, s.wakers .recv⟩

def Woken (b : Bell) : Prop :=
  ∀ w, b.receivers.isReserved w = true → (b.wakers w).queued = true

namespace Woken

theorem mono {b b' : Bell} (h : Woken b)
    (hr : ∀ w, b'.receivers.isReserved w = true → b.receivers.isReserved w = true)
    (hq : ∀ w, (b.wakers w).queued = true → (b'.wakers w).queued = true) : Woken b' :=
  fun w hw => hq w (h w (hr w hw))

end Woken

variable {a : Nat} {has : Bool} {s : St V}

/-- A promise comes with a wakeup. -/
theorem Effect.woken {P Q E : Prop} {c d : Cfg V} (he : Effect P Q E c d) (h : Woken (bell c.st)) :
    Woken (bell d.st) := by
  cases he with
  | frame | note | removeRecv | serve | deliver | unpark | grantSend | start | tick | accept | commit | pushSend
  | leaveSend | withdraw | sent | refused | threw => exact h
  | wake wakers _ hr => exact Woken.mono h (fun _ hv => hv) hr
  | @pushRecv s _ _ x wakers _ hr =>
    intro w hw
    have hw' : (s.receivers.push x).isReserved w = true := hw
    rw [WaitQueue.isReserved_push] at hw'
    have hne : w ≠ s.receivers.table.length := by
      rintro rfl
      simp [WaitQueue.isReserved] at hw'
    show (wakers .recv w).queued = true
    rw [hr w hne]; exact h w hw'
  | @leaveRecv s _ _ w =>
    refine Woken.mono h (fun v hv => ?_) (fun _ hv => hv)
    have hv' : (s.receivers.leave w).isReserved v = true := hv
    rw [WaitQueue.isReserved_leave] at hv'
    exact hv'
  | @reserve s _ _ w =>
    intro v hv
    by_cases hw : v = w
    · simp [bell, resume, emit, hw]
    · have hv' : (s.receivers.grant w).isReserved v = true := hv
      rw [WaitQueue.isReserved_grant _ _ _ (Ne.symm hw)] at hv'
      simpa [bell, resume, emit, hw] using h v hv'
  | @take s =>
    obtain ⟨l, o, b, ht⟩ := takeValue_rest s
    rw [ht]; exact h
  | shut wakers hr | shutDrop wakers hr =>
    exact Woken.mono h (fun _ hv => hv) fun v hv => (congrArg Waker.queued (congrFun hr v)).trans hv

theorem woken_step {s' : St V} {l : Lbl V} (hi : Inv s.toChan) (h : Woken (bell s)) (hs : step s l = some s') :
    Woken (bell s') :=
  (step_effects hi False.elim False.elim False.elim hs).keeps (I := fun c => Woken (bell c.st))
    (fun _ _ he => he.woken) h

theorem woken_inductive : (lts V).Inductive fun s => Inv s.toChan ∧ Woken (bell s) := by
  refine effects_inductive (I := fun c => Woken (bell c.st)) (fun c p q hard answers w hw => ?_)
    fun _ _ he => he.woken
  simp [bell, fresh, WaitQueue.empty, WaitQueue.isReserved] at hw

/-- **Nobody is left behind on a closed channel.** No sender is queued there, and each
queued receiver has been woken for a value that is kept for it. -/
theorem closed_strands_nobody (s : St V) (hr : (lts V).Reachable s) (hc : s.closed = true) :
    s.senders.queue = [] ∧ s.receivers.queue.length ≤ s.count ∧ ∀ w ∈ s.receivers.queue,
      s.receivers.isReserved w = true ∧ (s.wakers .recv w).queued = true := by
  obtain ⟨hi, hw⟩ := woken_inductive.reachable s hr
  have hres : ∀ w ∈ s.receivers.queue, s.receivers.isReserved w = true := by
    intro w hm
    obtain ⟨x, hx, -⟩ := hi.recv.wf.known w hm
    cases hf : x.reserved with
    | false => exact absurd ⟨w, hm, WaitQueue.isFree_of hx hf rfl⟩ (hi.rshut hc)
    | true => rw [WaitQueue.isReserved_some hx, hf]
  refine ⟨hi.sshut hc, ?_, fun w hm => ⟨hres w hm, hw w (hres w hm)⟩⟩
  rw [← List.countP_eq_length.2 hres, ← WaitQueue.reserved_eq hi.recv.wf hi.rheld]
  exact hi.recv.backed

theorem closed_strands_nobody_one :
    ∃ s : St Nat, s.closed = true ∧ s.receivers.queue = [0] ∧ (s.wakers .recv 0).queued = true := by
  obtain ⟨s, hr, hc, hq⟩ := exists_run (V := Nat) 0 (by decide) [.recv none, .sendAsync 7, .close .explicit]
    (P := fun s => s.closed = true ∧ s.receivers.queue = [0]) (by decide +kernel)
  exact ⟨s, hc, hq, ((closed_strands_nobody s hr hc).2.2 0 (by simp [hq])).2⟩

/-! ## Draining -/

theorem held_length {b : Nat} {c : Chan V} (h : Mid a b c) : c.held.length = c.count := by
  rcases Nat.eq_zero_or_pos c.capacity with h0 | hpos
  · grind [count_rendezvous, Chan.held, h.fits]
  · rw [count_buffered hpos, Chan.held, h.slot hpos, Option.toList_none, List.append_nil]

/-- Nobody is left to wake on the senders' side of a closed channel. -/
theorem wakeSender_idle (h : s.senders.queue = []) : wakeSender s = s := by
  have h1 : wakeDeliveredSender s = s := by grind [wakeDeliveredSender_cases]
  unfold wakeSender
  rw [h1]
  rcases grantSlot_cases s with ⟨heq, -⟩ | ⟨w, -, hw, -⟩
  · exact heq
  · have hq := (WaitQueue.first_mem hw).1
    rw [h] at hq; exact (List.not_mem_nil hq).elim

def delivered (s : St V) : List (Msg V) := s.log.filterMap Ev.delivered?

/-- One value has left to a receiver, or one cancelled receiver has left. -/
def Drains (s t : St V) : Prop :=
  t.closed = true ∧
    ((∃ m, s.held = m :: t.held ∧ delivered t = delivered s ++ [m] ∧
        t.receivers.reserved ≤ s.receivers.reserved) ∨
      (t.held = s.held ∧ delivered t = delivered s ∧
        t.receivers.reserved < s.receivers.reserved))

/-- A receiver that finds a value on a closed channel takes the oldest. -/
theorem receive_drains (hm : Mid a 0 s.toChan) (hc : s.closed = true) (hv : has = true → s.receivers.reserved < s.count)
    (hlt : s.receivers.reserved < s.count) (x : RecvWait) :
    (receive s x has).closed = true ∧ ∃ m, s.held = m :: (receive s x has).held ∧
      delivered (receive s x has) = delivered s ++ [m] ∧
      (receive s x has).receivers = s.receivers := by
  have hfree : s.hasFreeValue = true := decide_eq_true hlt
  rcases receive_cases hm hv x with ⟨m, -, hnext, heq⟩ | ⟨-, hno, -⟩ | ⟨-, hno, -⟩
  · have hheld := takeValue_held hm hnext
    obtain ⟨l, o, b, ht⟩ := takeValue_rest s
    have hidle : (takeValue s).1.senders.queue = [] := by rw [ht]; exact hm.sshut hc
    rw [heq, wakeSender_idle hidle, emit_toChan]
    refine ⟨by rw [ht]; exact hc, m, hheld, ?_, by rw [ht]⟩
    unfold delivered
    rw [emit_log, takeValue_log, List.filterMap_append,
      List.filterMap_cons_some (x.event_delivered m)]
    rfl
  · rw [hfree] at hno; cases hno
  · rw [hfree] at hno; cases hno

theorem recv_drains (hi : Inv s.toChan) (hc : s.closed = true) (hlt : s.receivers.reserved < s.count) :
    ∃ t, step s (.recv none) = some t ∧ Drains s t := by
  refine ⟨_, rfl, ?_⟩
  obtain ⟨hcl, m, hheld, hdel, hrecv⟩ := receive_drains (tick_inv hi).toMid hc
    (fun h : false = true => by cases h) hlt ⟨s.calls, .recv, none⟩
  exact ⟨hcl, .inl ⟨m, hheld, hdel, by rw [hrecv]; exact Nat.le_refl _⟩⟩

/-- A receiver with a promise runs: it takes a value, or it was cancelled and
its promise is void. -/
theorem run_drains (hi : Inv s.toChan) (hw : Woken (bell s)) (hc : s.closed = true) (hpos : 0 < s.receivers.reserved) :
    ∃ w t, step s (.run .recv w) = some t ∧ Drains s t := by
  obtain ⟨w, x, hx, hl, hr⟩ := hi.recv.wf.exists_reserved hpos
  have hres : s.receivers.isReserved w = true := by rw [WaitQueue.isReserved_some hx]; exact hr
  have hk : x.data.kind ≠ .future := by
    intro hk
    rw [hi.futures.free w x hx hk] at hr; cases hr
  have hq : (s.wakers .recv w).queued = true := hw w hres
  have hstep : step s (.run .recv w) = some (runReceiver s w x.data) := by
    simp [step, runWaiter, parkedOn, hx, hl, hk, hq]
  have hleft : (leaveReceiver s w).receivers.reserved < s.receivers.reserved := by
    simp only [leaveReceiver, WaitQueue.leave, hres, if_true]
    omega
  refine ⟨w, _, hstep, ?_⟩
  unfold runReceiver
  dsimp only
  generalize (s.wakers .recv w).error = e
  obtain ⟨hm, -, -, hlt⟩ := resumeReceiver_mid hi hx hl e
  have heq : resumeReceiver s w e = (refreshDeadlockTimer (leaveReceiver s w), e.isNone) := by
    rcases resumeReceiver_cases hi hx hl e with ⟨-, -, ho, -⟩ | ⟨-, heq⟩
    · rw [hc] at ho; cases ho
    · rw [heq, hr, Bool.true_and]
  rw [heq] at hm hlt ⊢
  dsimp only at hm hlt ⊢
  have hch := refresh_toChan (leaveReceiver s w)
  have hlog : (refreshDeadlockTimer (leaveReceiver s w)).log = s.log := refresh_log _
  generalize refreshDeadlockTimer (leaveReceiver s w) = t at hm hlt hch hlog ⊢
  have hc' : t.closed = true := by rw [hch]; exact hc
  have hdel : delivered t = delivered s := by unfold delivered; rw [hlog]
  have hheld : t.held = s.held := by rw [hch]; rfl
  have hrecv : t.receivers.reserved < s.receivers.reserved := by rw [hch]; exact hleft
  cases e with
  | none =>
    obtain ⟨hcl, m, hh, hd, hrc⟩ := receive_drains hm hc' hlt (hlt rfl) x.data
    rw [hheld] at hh
    rw [hdel] at hd
    exact ⟨hcl, .inl ⟨m, hh, hd, by rw [hrc]; omega⟩⟩
  | some ex =>
    dsimp only [receiverFails]
    have hemit : ∀ ev : Ev V, ev.delivered? = none → Drains s (emit t ev) := by
      intro ev hev
      refine ⟨hc', .inr ⟨hheld, ?_, hrecv⟩⟩
      rw [← hdel]
      unfold delivered
      rw [emit_log, List.filterMap_append, List.filterMap_cons_none hev, List.filterMap_nil,
        List.append_nil]
    split
    · exact hemit _ rfl
    · exact hemit _ rfl

/-- A step of a receiver. -/
def Lbl.Receives (l : Lbl V) : Prop := l = .recv none ∨ ∃ w, l = .run .recv w

theorem drain_step (hi : Inv s.toChan) (hw : Woken (bell s)) (hc : s.closed = true) (hne : s.held ≠ []) :
    ∃ l t, l.Receives ∧ step s l = some t ∧ Drains s t := by
  by_cases hlt : s.receivers.reserved < s.count
  · obtain ⟨t, hs, hd⟩ := recv_drains hi hc hlt
    exact ⟨_, t, .inl rfl, hs, hd⟩
  · have hpos : 0 < s.receivers.reserved := by
      have hlen := held_length hi.toMid
      have : 0 < s.held.length := List.length_pos_iff.2 hne
      omega
    obtain ⟨w, t, hs, hd⟩ := run_drains hi hw hc hpos
    exact ⟨_, t, .inr ⟨w, rfl⟩, hs, hd⟩

/-- **A closed channel is drained by receivers**, in the order of acceptance. -/
theorem drain_run (n : Nat) : ∀ {s : St V}, Inv s.toChan → Woken (bell s) → s.closed = true →
    s.held.length + s.receivers.reserved ≤ n →
    ∃ ls t, (lts V).Run s ls t ∧ (∀ l ∈ ls, l.Receives) ∧ t.held = [] ∧
      delivered t = delivered s ++ s.held := by
  induction n with
  | zero =>
    intro s _ _ _ hn
    have hnil : s.held = [] := List.eq_nil_of_length_eq_zero (by omega)
    exact ⟨[], s, .nil _, fun l hl => (List.not_mem_nil hl).elim, hnil, by rw [hnil, List.append_nil]⟩
  | succ n ih =>
    intro s hi hw hc hn
    by_cases hne : s.held = []
    · exact ⟨[], s, .nil _, fun l hl => (List.not_mem_nil hl).elim, hne, by rw [hne, List.append_nil]⟩
    obtain ⟨l, t, hl, hs, hct, hd⟩ := drain_step hi hw hc hne
    have hit := step_inv hi hs
    have hwt := woken_step hi hw hs
    rcases hd with ⟨m, hheld, hdel, hres⟩ | ⟨hheld, hdel, hres⟩
    · have hlen : s.held.length = t.held.length + 1 := by rw [hheld, List.length_cons]
      obtain ⟨ls, u, hrun, hls, hu, hdu⟩ := ih hit hwt hct (by omega)
      refine ⟨l :: ls, u, .cons hs hrun, ?_, hu, ?_⟩
      · intro l' hl'
        rcases List.mem_cons.1 hl' with rfl | hl'
        · exact hl
        · exact hls l' hl'
      · rw [hdu, hdel, hheld, List.append_assoc]; rfl
    · obtain ⟨ls, u, hrun, hls, hu, hdu⟩ := ih hit hwt hct (by rw [hheld]; omega)
      refine ⟨l :: ls, u, .cons hs hrun, ?_, hu, ?_⟩
      · intro l' hl'
        rcases List.mem_cons.1 hl' with rfl | hl'
        · exact hl
        · exact hls l' hl'
      · rw [hdu, hdel, hheld]

/-! ## A send that was reported as successful -/

/-- **Counterexample.** `sendAsync()` stores its value in the empty slot and
returns true; nobody has claimed the value, and `close()` withdraws it. -/
theorem sent_withdrawn_by_close :
    ∃ s : St Nat, (lts Nat).Reachable s ∧ s.closed = true ∧ .sent 0 ∈ s.log ∧ s.held = [] ∧
      .rolledBack ⟨0, .sendAsync, 1⟩ .close ∈ s.log ∧ s.log.filterMap Ev.delivered? = [] := by
  exact exists_run (V := Nat) 0 (by decide) [.sendAsync 1, .close .explicit] (by decide +kernel)

/-- **A reported send is not undone.** In every run in which no close meets an
unclaimed value of `sendAsync()` in the rendezvous slot: a value whose call has
returned success is in the channel until a receiver takes it, and once the
channel is closed a run of receivers delivers everything it holds, in order. -/
theorem sent_survives_close (s : St V) (hr : ((lts V).restrict CloseCovered).Reachable s) (k : Nat)
    (hk : .sent k ∈ s.log) :
    (∃ m, m.call = k ∧ (m ∈ s.held ∨ m ∈ s.log.filterMap Ev.delivered?)) ∧
      (s.closed = true → ∃ ls t, (lts V).Run s ls t ∧
        (∀ l ∈ ls, l = .recv none ∨ ∃ w, l = .run .recv w) ∧ t.held = [] ∧
        t.log.filterMap Ev.delivered? = s.log.filterMap Ev.delivered? ++ s.held) := by
  have h := ((own_inductive (P := False) (Q := True) (fun hf => hf.elim)
    (fun _ _ _ hg => hg)).reachable s hr).2
  have hreach := hr.of_restrict
  refine ⟨?_, fun hc => ?_⟩
  · obtain ⟨⟨m, hacc, hcall⟩, hkept⟩ := h.sent trivial k hk
    refine ⟨m, hcall, ?_⟩
    have hmem := (ledger_fifo hreach).conserve.mem_iff.1 (List.mem_filterMap.2 ⟨_, hacc, rfl⟩)
    rcases List.mem_append.1 hmem with hmem | hdrop
    · exact (List.mem_append.1 hmem).symm
    · obtain ⟨e, he, hm⟩ := List.mem_filterMap.1 hdrop
      cases e <;> cases hm
      exact (hkept m _ he hcall).elim
  · obtain ⟨hi, hw⟩ := woken_inductive.reachable s hreach
    exact drain_run _ hi hw hc (Nat.le_refl _)

/-- The value is promised to a receiver that is then cancelled, and the channel
is closed. -/
theorem sent_survives_close_committed :
    ∃ s : St Nat, s.closed = true ∧ .sent 1 ∈ s.log ∧ s.held = [⟨1, .sendAsync, 4⟩] ∧
      ∃ ls t, (lts Nat).Run s ls t ∧ t.held = [] ∧
        t.log.filterMap Ev.delivered? = s.log.filterMap Ev.delivered? ++ [⟨1, .sendAsync, 4⟩] := by
  obtain ⟨s, hr, hc, hsent, hheld⟩ := exists_restricted_run (V := Nat) CloseCovered 0 (by decide)
    [.recv none, .sendAsync 4, .cancel .recv 0, .close .explicit]
    (P := fun s => s.closed = true ∧ .sent 1 ∈ s.log ∧ s.held = [⟨1, .sendAsync, 4⟩]) (by decide +kernel)
  obtain ⟨ls, t, hrun, -, ht, hdel⟩ := (sent_survives_close s hr 1 hsent).2 hc
  rw [hheld] at hdel
  exact ⟨s, hc, hsent, hheld, ls, t, hrun, ht, hdel⟩

end PhpAsync.L2.Channel
