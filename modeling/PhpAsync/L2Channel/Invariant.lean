import PhpAsync.L2Channel.Reservation

/-!
# `Async\Channel`: the invariant over every run

Each method keeps the reservation invariant `Inv`. A method entered again by a
woken waiter starts with the place that was kept for it (`Mid 0 1`, `Mid 1 0`)
and uses it. Each `*_cases` lemma says what a method can do.

* `inv_inductive`: `Inv` holds in every reachable state.
* `no_lost_wakeup`: nobody waits for something that is there.
-/
namespace PhpAsync.L2.Channel

open PhpAsync.Core PhpAsync.L1

variable {V : Type} {a b w : Nat} {c : Chan V} {has : Bool} {s s' t : St V} {x : Waiter RecvWait}

theorem assertThat_pos (s : St V) {ok : Bool} (hok : ok = true) (f : Fault) :
    assertThat s ok f = s := by
  subst hok; rfl

/-- An empty slot has nothing to withdraw and nobody to acknowledge. -/
theorem Mid.inv_of_empty_slot (h : Mid 0 0 c) (hs : Settled c) (hn : c.rendezvous = none) : Inv c :=
  { h with settled := hs, quiet := fun ho => by rw [hn] at ho; cases ho }

/-- What a waiter had reserved is its own still, or the channel is closed. -/
theorem Mid.of_spent {r : Bool} {e : Option Exn} (hc : r = true → e.isSome = true → c.closed = true) :
    (Mid (if r then 1 else 0) b c → Mid (if r && e.isNone then 1 else 0) b c) ∧
      (Mid a (if r then 1 else 0) c → Mid a (if r && e.isNone then 1 else 0) c) := by
  cases r with
  | false => exact ⟨id, id⟩
  | true =>
    cases e with
    | none => exact ⟨id, id⟩
    | some e => exact ⟨fun h => h.of_closed (hc rfl rfl) _ _, fun h => h.of_closed (hc rfl rfl) _ _⟩

/-! ## Receiving -/

theorem waitForData_inv (h : Inv s.toChan) {x : RecvWait} (hx : x.kind ≠ .future) (hv : s.hasFreeValue = false)
    (hc : s.closed = false) : Inv (waitForData s x).toChan := by
  unfold waitForData
  split
  · exact h
  · have hle : s.count ≤ s.receivers.reserved := by
      simpa [Chan.hasFreeValue] using hv
    rw [suspend_toChan, refresh_toChan]
    exact { h with
      recv := h.recv.push x (fun _ => hle)
      rheld := WaitQueue.held_push h.rheld x
      rshut := fun hcl => by rw [hc] at hcl; cases hcl
      futures := h.futures.push hx }

/-- A receiver takes a value, finds the channel closed, or waits. -/
theorem receive_cases (hm : Mid a 0 s.toChan) (hv : has = true → s.receivers.reserved < s.count) (x : RecvWait) :
    (∃ m, s.receivers.reserved < s.count ∧ s.next = some m ∧
      receive s x has = emit (wakeSender (takeValue s).1) (x.event m)) ∨
    (has = false ∧ s.hasFreeValue = false ∧ s.closed = true ∧
      (receive s x has = emit s (.ended x.call) ∨
        receive s x has = emit s (.threw .recv x.call (.channel s.closeReason)))) ∨
    (has = false ∧ s.hasFreeValue = false ∧ s.closed = false ∧
      receive s x has = waitForData s x) := by
  unfold receive
  split
  · rename_i hfree
    have hlt : s.receivers.reserved < s.count := by grind [Chan.hasFreeValue]
    obtain ⟨-, m, hnext⟩ := takeValue_mid hm hlt
    have hne : s.isEmpty = false := by grind [Chan.next, Chan.isEmpty]
    have hassert : assertThat s (decide (x.kind = .foreach) || !s.isEmpty)
        .reservationOutlivedValue = s := assertThat_pos s (by rw [hne]; simp) _
    refine .inl ⟨m, hlt, hnext, ?_⟩
    dsimp only
    rw [hassert, takeValue_snd, hnext]; rfl
  · grind

/-- Taking a value leaves everything handed out. -/
theorem takeValue_wakeSender (hm : Mid a 0 s.toChan) (ha : a ≤ 1) (hlt : s.receivers.reserved < s.count) :
    Inv (wakeSender (takeValue s).1).toChan := by
  obtain ⟨h1, -⟩ := takeValue_mid hm hlt
  rw [show a - 1 = 0 by omega] at h1
  obtain ⟨h2, hs2⟩ := wakeSender_mid h1
  obtain ⟨q, hrest⟩ := wakeSender_chan (takeValue s).1
  refine h2.inv_of_empty_slot hs2 ?_
  rw [hrest]; exact takeValue_slot hm.slot

/-- `recv()` and the `foreach` step, entered with a reservation or without. -/
theorem receive_inv (hm : Mid a 0 s.toChan) (hs : Settled s.toChan) (hq : Quiet s.toChan) {x : RecvWait}
    (hx : x.kind ≠ .future) (ha : a = if has then 1 else 0) (hv : has = true → s.receivers.reserved < s.count) :
    Inv (receive s x has).toChan := by
  have ha1 : a ≤ 1 := by split at ha <;> omega
  have hi : has = false → Inv s.toChan := by
    intro hhas
    rw [hhas] at ha
    subst ha
    exact { hm with settled := hs, quiet := hq }
  rcases receive_cases hm hv x with ⟨m, hlt, -, heq⟩ | ⟨hhas, -, -, heq | heq⟩ | ⟨hhas, hfree, hc, heq⟩ <;> rw [heq]
  · exact takeValue_wakeSender hm ha1 hlt
  · exact hi hhas
  · exact hi hhas
  · exact waitForData_inv (hi hhas) hx hfree hc

/-- The state with the future a call of `recvAsync()` has made. -/
def withFuture (s : St V) : St V := setFuture (tick s) s.calls (.pending none)

theorem withFuture_pending (s : St V) : (withFuture s).futures s.calls = .pending none := if_pos rfl

theorem withFuture_inv (h : Inv s.toChan) : Inv (withFuture s).toChan := by
  refine { h with futures := h.futures.tick.set (Nat.lt_succ_self _) (h.futures.call_ne fun w hw => ?_) nofun }
  rw [h.futures.new _ (Nat.le_refl _)] at hw; cases hw

/-- The new future is filled at once, rejected, or queued. -/
theorem receiveAsync_cases (h : Inv s.toChan) :
    (∃ m, (withFuture s).receivers.reserved < (withFuture s).count ∧
      (withFuture s).next = some m ∧
      (wakeSender (takeValue (withFuture s)).1).futures s.calls = .pending none ∧
      receiveAsync (tick s) s.calls =
        emit (setFuture (wakeSender (takeValue (withFuture s)).1) s.calls (.completed m))
          (.completed s.calls m)) ∨
    ((withFuture s).hasFreeValue = false ∧ s.closed = true ∧
      receiveAsync (tick s) s.calls =
        emit (setFuture (withFuture s) s.calls (.rejected (.channel s.closeReason)))
          (.rejected s.calls (.channel s.closeReason))) ∨
    ((withFuture s).hasFreeValue = false ∧ s.closed = false ∧
      receiveAsync (tick s) s.calls =
        setFuture { withFuture s with receivers := s.receivers.push ⟨s.calls, .future, none⟩ }
          s.calls (.pending (some s.receivers.table.length))) := by
  have hi := withFuture_inv h
  have hpend := withFuture_pending s
  have hunfold : receiveAsync (tick s) s.calls =
      if (withFuture s).hasFreeValue then
        completeFuture (wakeSender (takeValue (withFuture s)).1) s.calls (takeValue (withFuture s)).2
      else if s.closed then rejectFuture (withFuture s) s.calls (.channel s.closeReason)
      else
        setFuture { withFuture s with receivers := s.receivers.push ⟨s.calls, .future, none⟩ }
          s.calls (.pending (some s.receivers.table.length)) := rfl
  rw [hunfold]
  generalize withFuture s = s1 at hi hpend ⊢
  split
  · rename_i hfree
    have hlt : s1.receivers.reserved < s1.count := by simpa [Chan.hasFreeValue] using hfree
    obtain ⟨-, m, hnext⟩ := takeValue_mid hi.toMid hlt
    obtain ⟨l, o, b, htake⟩ := takeValue_rest s1
    obtain ⟨q, hrest⟩ := wakeSender_chan (takeValue s1).1
    have hpend' : (wakeSender (takeValue s1).1).futures s.calls = .pending none := by
      rw [hrest, htake]; exact hpend
    refine .inl ⟨m, hlt, hnext, hpend', ?_⟩
    rw [takeValue_snd, hnext]
    unfold completeFuture
    rw [hpend']
  · grind [rejectFuture]

theorem receiveAsync_inv (h : Inv s.toChan) : Inv (receiveAsync (tick s) s.calls).toChan := by
  have hi := withFuture_inv h
  have hpend := withFuture_pending s
  rcases receiveAsync_cases h with ⟨m, hv, -, hp, heq⟩ | ⟨-, -, heq⟩ | ⟨hfree, hc, heq⟩ <;> rw [heq]
  · have ht := takeValue_wakeSender hi.toMid (Nat.zero_le _) hv
    generalize wakeSender (takeValue (withFuture s)).1 = t at ht hp ⊢
    have hf := ht.futures.settle (f := s.calls) (v := .completed m) (by rw [hp]; nofun) (by rw [hp]; nofun) nofun
    exact { ht with futures := hf }
  · generalize withFuture s = t at hi hpend ⊢
    have hf := hi.futures.settle (f := s.calls) (v := .rejected (.channel s.closeReason))
      (by rw [hpend]; nofun) (by rw [hpend]; nofun) nofun
    exact { hi with futures := hf }
  · have hle : (withFuture s).count ≤ (withFuture s).receivers.reserved := by
      simpa [Chan.hasFreeValue] using hfree
    exact { hi with
      recv := h.recv.push _ (fun _ => hle)
      rheld := WaitQueue.held_push h.rheld _
      rshut := fun hcl => by rw [show s.closed = true from hcl] at hc; cases hc
      futures := hi.futures.enqueue hpend }

/-! ## Sending -/

theorem pushBuffer_eq (hpos : 0 < s.capacity) (hf : s.senders.reserved < s.freeSpace) (m : Msg V) :
    pushBuffer s m = emit { s with buffer := s.buffer ++ [m] } (.accepted m) := by
  rw [freeSpace_buffered hpos] at hf
  have hlt : s.buffer.length < s.capacity := by omega
  unfold pushBuffer
  rw [CircularBuffer.not_isFull hlt]
  rfl

/-- A value goes into a slot of the buffer that is given to nobody. -/
theorem pushBuffer_mid (h : Mid a b s.toChan) (hpos : 0 < s.capacity) (hf : s.senders.reserved < s.freeSpace)
    (m : Msg V) : Mid (a + 1) (b - 1) (pushBuffer s m).toChan := by
  rw [pushBuffer_eq hpos hf m, emit_toChan]
  have hr := h.recv.free
  have hs := h.send
  rw [count_buffered hpos] at hr
  rw [freeSpace_buffered hpos] at hs hf
  have hn : s.capacity - s.buffer.length = s.capacity - (s.buffer.length + 1) + 1 := by omega
  rw [hn] at hs hf
  refine { h with fits := ?_, recv := ?_, send := ?_ }
  · dsimp only
    rw [List.length_append, List.length_singleton]; omega
  · rw [count_buffered (by exact hpos)]
    simpa using hr
  · rw [freeSpace_buffered (by exact hpos)]
    simpa using hs.use hf

theorem Mid.slot_empty (h : Mid a b c) (h0 : c.capacity = 0) (hf : c.senders.reserved < c.freeSpace) :
    c.rendezvous = none ∧ c.receivers.reserved = 0 := by
  have hnone : c.rendezvous = none := by
    rw [freeSpace_rendezvous h0] at hf
    cases ho : c.rendezvous with
    | none => rfl
    | some m => rw [ho] at hf; simp at hf
  have hb := h.recv.backed
  rw [count_rendezvous h0, hnone] at hb
  exact ⟨hnone, by simpa using hb⟩

/-- A value goes into the empty slot. -/
theorem storeSlot_mid (h : Mid a b c) (h0 : c.capacity = 0) (hf : c.senders.reserved < c.freeSpace) (hs : Settled c)
    (m : Msg V) : Mid (a + 1) (b - 1) { c with rendezvous := some m, committed := false } := by
  obtain ⟨hnone, -⟩ := h.slot_empty h0 hf
  have hr := h.recv.free
  have hse := h.send
  rw [count_rendezvous h0, hnone] at hr
  rw [freeSpace_rendezvous h0, hnone] at hse hf
  refine { h with slot := ?_, recv := ?_, send := ?_, delivering := ?_ }
  · intro hpos
    have : c.capacity = 0 := h0
    dsimp only at hpos
    omega
  · rw [count_rendezvous (by exact h0)]
    exact hr
  · rw [freeSpace_rendezvous (by exact h0)]
    exact hse.use hf
  · exact h.delivering.store (hs hnone) _ _

theorem reserveValue_chan (s : St V) (w : Nat) :
    (reserveValue s w).toChan = { s.toChan with receivers := s.receivers.grant w } := by
  unfold reserveValue; rw [refresh_toChan]; rfl

/-- A rendezvous value is stored and offered. With no receiver for it the
channel is left with an uncommitted value in the slot. -/
theorem offer_inv (h : Mid 0 b s.toChan) (hb : b ≤ 1) (hs : Settled s.toChan) (h0 : s.capacity = 0)
    (hf : s.senders.reserved < s.freeSpace) (m : Msg V) :
    Inv (offer s m).1.toChan ∧ ((offer s m).2 = false →
      (offer s m).1.toChan = { s.toChan with rendezvous := some m, committed := false } ∧
        NoneDelivering s.senders) := by
  obtain ⟨hnone, hres⟩ := h.slot_empty h0 hf
  have hnd := hs hnone
  have h1 := storeSlot_mid h h0 hf hs m
  rw [show b - 1 = 0 by omega] at h1
  unfold offer
  generalize hs1 : emit ({ s with rendezvous := some m, committed := false } : St V) (.accepted m)
    = s1
  have hc1 : s1.toChan = { s.toChan with rendezvous := some m, committed := false } := by
    rw [← hs1]; rfl
  have hset : Settled s1.toChan := by
    intro hn
    rw [hc1] at hn; cases hn
  rw [← hc1] at h1
  obtain ⟨h2, hs2⟩ := wakeReceiver_mid h1 hset
  rcases wakeReceiver_cases s1 with ⟨heq, -⟩ | ⟨w, -, -, ⟨f, -, heq⟩ | ⟨-, heq⟩⟩
  · -- nobody there
    rw [heq] at h2 hs2 ⊢
    simp only [Bool.false_eq_true, if_false]
    refine ⟨{ h2 with settled := hs2, quiet := fun _ _ => ?_ }, fun _ => ⟨hc1, hnd⟩⟩
    rw [hc1]; exact hres
  · -- a future took it
    obtain ⟨c, q, g, hch⟩ := serveFuture_chan s1 w f
    have hslot : (serveFuture s1 w f).rendezvous = none := by rw [hch]; exact takeValue_slot h1.slot
    rw [heq] at h2 hs2 ⊢
    generalize serveFuture s1 w f = t at h2 hs2 hslot ⊢
    simp only [if_true]
    refine ⟨?_, nofun⟩
    have hm3 : Mid 0 0 { t.toChan with committed := t.rendezvous.isSome } :=
      { h2 with delivering := h2.delivering.store (hs2 hslot) _ _ }
    exact hm3.inv_of_empty_slot hs2 hslot
  · -- a receiver has it reserved: the value is committed
    have hch := reserveValue_chan s1 w
    have hsome : (reserveValue s1 w).rendezvous = some m := by rw [hch, hc1]
    have hsend : (reserveValue s1 w).senders = s.senders := by rw [hch, hc1]
    rw [heq] at h2 hs2 ⊢
    generalize reserveValue s1 w = t at h2 hs2 hsome hsend ⊢
    simp only [if_true]
    refine ⟨{ h2 with delivering := ?_, settled := hs2, quiet := fun _ hc => ?_ }, nofun⟩
    · refine h2.delivering.store ?_ _ _
      rw [hsend]; exact hnd
    · dsimp only at hc
      rw [hsome] at hc; cases hc

theorem waitForSend_inv (h : Inv s.toChan) {x : SendWait V} (hc : s.closed = false)
    (hv : x.delivering = false → s.freeSpace ≤ s.senders.reserved)
    (hd : x.delivering = true → s.capacity = 0 ∧ s.rendezvous = some x.msg ∧ s.committed = false ∧
      NoneDelivering s.senders) : Inv (waitForSend s x).toChan := by
  unfold waitForSend
  split
  · exact h
  · rw [suspend_toChan, refresh_toChan]
    refine { h with
      send := h.send.push x hv
      sheld := fun _ => WaitQueue.held_push (h.sheld hc) x
      sshut := fun hcl => by rw [hc] at hcl; cases hcl
      delivering := h.delivering.push hd
      settled := fun hnone w y hw hy => ?_ }
    rw [WaitQueue.getElem?_push] at hy
    split at hy
    · grind
    · rename_i hne
      have hmem : w ∈ s.senders.queue := by
        simp only [WaitQueue.push, List.mem_append, List.mem_singleton] at hw
        exact hw.resolve_right hne
      exact h.settled hnone w y hmem hy

theorem pushBuffer_settled (hs : Settled s.toChan) (hpos : 0 < s.capacity) (hf : s.senders.reserved < s.freeSpace)
    (m : Msg V) : Settled (pushBuffer s m).toChan := by
  rw [pushBuffer_eq hpos hf m]; exact hs

theorem pushBuffer_slot (h : Mid a b s.toChan) (hs : Settled s.toChan) (hpos : 0 < s.capacity)
    (hf : s.senders.reserved < s.freeSpace) (m : Msg V) : (wakeReceiver (pushBuffer s m)).1.rendezvous = none := by
  refine (wakeReceiver_mid (pushBuffer_mid h hpos hf m) (pushBuffer_settled hs hpos hf m)).1.slot ?_
  rw [(wakeReceiver_rest _).1, pushBuffer_eq hpos hf m]; exact hpos

theorem pushBuffer_inv (h : Mid 0 b s.toChan) (hb : b ≤ 1) (hs : Settled s.toChan) (hpos : 0 < s.capacity)
    (hf : s.senders.reserved < s.freeSpace) (m : Msg V) : Inv (wakeReceiver (pushBuffer s m)).1.toChan := by
  have h1 := pushBuffer_mid h hpos hf m
  rw [show b - 1 = 0 by omega] at h1
  obtain ⟨h2, hs2⟩ := wakeReceiver_mid h1 (pushBuffer_settled hs hpos hf m)
  exact h2.inv_of_empty_slot hs2 (pushBuffer_slot h hs hpos hf m)

/-- A sender finds the channel closed, stores its value, or waits. A rendezvous
value that finds no receiver is waited for in the slot. -/
theorem transmit_cases (hm : Mid 0 b s.toChan) (hv : has = true → s.senders.reserved < s.freeSpace) (m : Msg V)
    (token : Option Nat) :
    (s.closed = true ∧ transmit s m token has = emit s (.threw .send m.call (.channel s.closeReason))) ∨
    (s.closed = false ∧ s.senders.reserved < s.freeSpace ∧ 0 < s.capacity ∧
      transmit s m token has = emit (wakeReceiver (pushBuffer s m)).1 (.sent m.call)) ∨
    (s.closed = false ∧ s.senders.reserved < s.freeSpace ∧ s.capacity = 0 ∧ (offer s m).2 = true ∧
      transmit s m token has = emit (offer s m).1 (.sent m.call)) ∨
    (s.closed = false ∧ s.senders.reserved < s.freeSpace ∧ s.capacity = 0 ∧ (offer s m).2 = false ∧
      transmit s m token has = waitForSend (offer s m).1 ⟨m, token, true⟩) ∨
    (s.closed = false ∧ has = false ∧ s.freeSpace ≤ s.senders.reserved ∧
      transmit s m token has = waitForSend s ⟨m, token, false⟩) := by
  unfold transmit
  split
  · rename_i hc; exact .inl ⟨hc, rfl⟩
  rename_i hc
  have hopen : s.closed = false := by simpa using hc
  split
  · rename_i hfree
    have hlt : s.senders.reserved < s.freeSpace := by grind [Chan.hasFreeSlot]
    split
    · rename_i hbuf
      exact .inr (.inl ⟨hopen, hlt, isBuffered_iff.1 hbuf, rfl⟩)
    · grind [isBuffered_iff, assertThat_pos, hm.slot_empty]
  · grind [Chan.hasFreeSlot]

/-- `send()`, entered with a slot kept for it or without. -/
theorem transmit_inv (hm : Mid 0 b s.toChan) (hs : Settled s.toChan) (hq : Quiet s.toChan) {m : Msg V}
    {token : Option Nat} (hb : b = if has then 1 else 0) (hv : has = true → s.senders.reserved < s.freeSpace) :
    Inv (transmit s m token has).toChan := by
  have hb1 : b ≤ 1 := by split at hb <;> omega
  rcases transmit_cases hm hv m token with ⟨hc, heq⟩ | ⟨-, hlt, hpos, heq⟩ | ⟨-, hlt, h0, -, heq⟩ |
    ⟨hopen, hlt, h0, hr, heq⟩ | ⟨hopen, hhas, hfull, heq⟩ <;> rw [heq]
  · exact { hm.of_closed hc 0 0 with settled := hs, quiet := hq }
  · exact pushBuffer_inv hm hb1 hs hpos hlt m
  · exact (offer_inv hm hb1 hs h0 hlt m).1
  · grind [offer_inv, waitForSend_inv]
  · rw [hhas] at hb
    subst hb
    exact waitForSend_inv { hm with settled := hs, quiet := hq } hopen (fun _ => hfull) nofun

/-- `sendAsync()` never waits. -/
theorem transmitAsync_cases (s : St V) (m : Msg V) :
    transmitAsync s m = emit s (.refused m.call) ∨
    (s.closed = false ∧ s.senders.reserved < s.freeSpace ∧ 0 < s.capacity ∧
      transmitAsync s m = emit (wakeReceiver (pushBuffer s m)).1 (.sent m.call)) ∨
    (s.closed = false ∧ s.senders.reserved < s.freeSpace ∧ s.capacity = 0 ∧
      transmitAsync s m = emit (offer s m).1 (.sent m.call)) := by
  unfold transmitAsync
  split
  · exact .inl rfl
  split
  · exact .inl rfl
  rename_i hc hfree
  have hopen : s.closed = false := by simpa using hc
  have hlt : s.senders.reserved < s.freeSpace := by simpa [Chan.hasFreeSlot] using hfree
  split
  · rename_i hbuf
    exact .inr (.inl ⟨hopen, hlt, isBuffered_iff.1 hbuf, rfl⟩)
  · grind [isBuffered_iff]

theorem transmitAsync_inv (h : Inv s.toChan) (m : Msg V) : Inv (transmitAsync s m).toChan := by
  rcases transmitAsync_cases s m with heq | ⟨-, hlt, hpos, heq⟩ | ⟨-, hlt, h0, heq⟩ <;> rw [heq]
  · exact h
  · exact pushBuffer_inv h.toMid (Nat.zero_le _) h.settled hpos hlt m
  · exact (offer_inv h.toMid (Nat.zero_le _) h.settled h0 hlt m).1

/-! ## A waiter runs -/

/-- Only a committed value is handed on. -/
theorem wakeReceiver_quiet (hslot : 0 < s.capacity → s.rendezvous = none)
    (hc : s.rendezvous.isSome = true → s.committed = true) : Quiet (wakeReceiver s).1.toChan := by
  rcases wakeReceiver_cases s with ⟨heq, -⟩ | ⟨w, -, -, ⟨f, -, heq⟩ | ⟨-, heq⟩⟩
  · rw [heq]
    intro ho hcom
    rw [hc ho] at hcom; cases hcom
  · rw [heq]
    obtain ⟨b, q, g, hch⟩ := serveFuture_chan s w f
    intro hsome
    rw [hch] at hsome
    rw [takeValue_slot hslot] at hsome; cases hsome
  · rw [heq]
    rw [reserveValue_chan]
    intro ho hcom
    rw [hc ho] at hcom; cases hcom

/-- A receiver leaves the queue: what it had reserved is now given to nobody. -/
theorem leaveReceiver_mid (h : Inv s.toChan) (hx : s.receivers.table[w]? = some x) (hl : x.live = true) :
    Mid (if x.reserved then 1 else 0) 0 (leaveReceiver s w).toChan ∧
      Settled (leaveReceiver s w).toChan ∧ Quiet (leaveReceiver s w).toChan ∧
      (x.reserved = true →
        (leaveReceiver s w).receivers.reserved < (leaveReceiver s w).count ∧
        ((leaveReceiver s w).rendezvous.isSome = true → (leaveReceiver s w).committed = true)) := by
  obtain ⟨hleave, hlt⟩ := h.recv.leave hx hl
  refine ⟨{ h with
    recv := by rw [Nat.zero_add] at hleave; exact hleave
    rheld := WaitQueue.held_leave h.rheld w
    rshut := fun hc hst => h.rshut hc (WaitQueue.starving_leave hst)
    futures := h.futures.leave w }, h.settled, fun ho hcom => ?_, fun hr => ⟨hlt hr, fun ho => ?_⟩⟩
  · have := h.quiet ho hcom
    simp only [leaveReceiver, WaitQueue.leave, this]
    split <;> omega
  · grind [h.quiet, h.recv.wf.reserved_pos, leaveReceiver, Settled, Quiet, Chan.count]

/-- A receiver comes back: an unspent reservation is handed on, anything else is
left as it is. -/
theorem resumeReceiver_cases (h : Inv s.toChan) (hx : s.receivers.table[w]? = some x) (hl : x.live = true) (e : Option Exn) :
    (x.reserved = true ∧ e.isSome = true ∧ s.closed = false ∧
      resumeReceiver s w e =
        (refreshDeadlockTimer (wakeReceiver (leaveReceiver s w)).1, false)) ∨
    ((x.reserved = true → e.isSome = true → s.closed = true) ∧
      resumeReceiver s w e =
        (refreshDeadlockTimer (leaveReceiver s w), x.reserved && e.isNone)) := by
  have hassert : assertThat s (!x.reserved || decide (0 < s.receivers.reserved))
      .receiverReleasedTwice = s := by
    refine assertThat_pos s ?_ _
    cases hr : x.reserved with
    | false => rfl
    | true => simp [h.recv.wf.reserved_pos hx hl hr]
  have hclosed : (leaveReceiver s w).closed = s.closed := rfl
  unfold resumeReceiver
  dsimp only
  rw [WaitQueue.isReserved_some hx, hassert, hclosed]
  split
  · grind
  · grind

/-- What a receiver that comes back had reserved is its own to take, or was
handed on, or the channel is closed. -/
theorem resumeReceiver_mid (h : Inv s.toChan) (hx : s.receivers.table[w]? = some x) (hl : x.live = true)
    (e : Option Exn) :
    Mid (if (resumeReceiver s w e).2 then 1 else 0) 0 (resumeReceiver s w e).1.toChan ∧
      Settled (resumeReceiver s w e).1.toChan ∧ Quiet (resumeReceiver s w e).1.toChan ∧
      ((resumeReceiver s w e).2 = true →
        (resumeReceiver s w e).1.receivers.reserved < (resumeReceiver s w e).1.count) := by
  obtain ⟨h1, hs1, hq1, hres⟩ := leaveReceiver_mid h hx hl
  rcases resumeReceiver_cases h hx hl e with ⟨hr, -, -, heq⟩ | ⟨hc, heq⟩ <;> rw [heq]
  · rw [hr] at h1
    obtain ⟨h2, hs2⟩ := wakeReceiver_mid h1 hs1
    simp only [refresh_toChan, Bool.false_eq_true, if_false]
    exact ⟨h2, hs2, wakeReceiver_quiet h1.slot (hres hr).2, fun hf => hf.elim⟩
  · simp only [refresh_toChan]
    refine ⟨(Mid.of_spent (a := 0) (c := (leaveReceiver s w).toChan) hc).1 h1, hs1, hq1, fun hspent => ?_⟩
    rw [Bool.and_eq_true] at hspent
    exact (hres hspent.1).1

theorem runReceiver_inv (h : Inv s.toChan) (hx : s.receivers.table[w]? = some x) (hl : x.live = true)
    (hk : x.data.kind ≠ .future) : Inv (runReceiver s w x.data).toChan := by
  unfold runReceiver
  generalize (s.wakers .recv w).error = e
  obtain ⟨hm, hs, hq, hlt⟩ := resumeReceiver_mid h hx hl e
  cases e with
  | none => exact receive_inv hm hs hq hk rfl hlt
  | some ex =>
    have hspent : (resumeReceiver s w (some ex)).2 = false := by simp [resumeReceiver]
    rw [hspent] at hm
    dsimp only [receiverFails]
    split <;> exact { hm with settled := hs, quiet := hq }

theorem rollback_cases (s : St V) (why : Rollback) :
    (rollback s why = s ∧ (s.rendezvous = none ∨ s.committed = true)) ∨
    ∃ m, s.rendezvous = some m ∧ s.committed = false ∧
      rollback s why = emit { s with rendezvous := none } (.rolledBack m why) := by
  unfold rollback
  split
  · grind
  · rename_i hnone; exact .inl ⟨rfl, .inl hnone⟩

theorem rollback_closed (s : St V) (why : Rollback) : (rollback s why).closed = s.closed := by
  rcases rollback_cases s why with ⟨heq, -⟩ | ⟨m, -, -, heq⟩ <;> rw [heq]
  rfl

/-- A value is withdrawn only while nobody has reserved it; the slot is free
then. -/
theorem rollback_mid (h : Mid a b s.toChan) (hq : Quiet s.toChan) (why : Rollback) :
    Mid a (b + 1) (rollback s why).toChan ∧ Quiet (rollback s why).toChan := by
  rcases rollback_cases s why with ⟨heq, -⟩ | ⟨m, hm, hc, heq⟩ <;> rw [heq]
  · exact ⟨h.mono (Nat.le_refl _) (Nat.le_succ _), hq⟩
  · have hres : s.receivers.reserved = 0 := hq (by rw [hm]; rfl) hc
    have h0 : s.capacity = 0 := by grind [h.slot]
    have hs := h.send.free
    rw [freeSpace_rendezvous h0, hm] at hs
    rw [emit_toChan]
    refine ⟨{ h with slot := fun _ => rfl, recv := ?_, send := ?_, delivering := h.delivering.take _ }, nofun⟩
    · rw [count_rendezvous (by exact h0)]
      exact ⟨h.recv.wf, by rw [hres]; exact Nat.zero_le _, fun _ => Nat.zero_le _⟩
    · rw [freeSpace_rendezvous (by exact h0)]
      exact hs

/-- A sender leaves the queue: the slot kept for it is now given to nobody. -/
theorem leaveSender_mid (h : Inv s.toChan) {x : Waiter (SendWait V)} (hx : s.senders.table[w]? = some x) (hl : x.live = true) :
    Mid 0 (if x.reserved then 1 else 0) (leaveSender s w).toChan ∧
      Settled (leaveSender s w).toChan ∧ Quiet (leaveSender s w).toChan ∧
      (x.reserved = true → (leaveSender s w).senders.reserved < (leaveSender s w).freeSpace) := by
  obtain ⟨hleave, hlt⟩ := h.send.leave hx hl
  refine ⟨{ h with
    send := by rw [Nat.zero_add] at hleave; exact hleave
    sheld := fun hc => WaitQueue.held_leave (h.sheld hc) w
    sshut := fun hc => by simp [leaveSender, WaitQueue.leave, h.sshut hc]
    delivering := h.delivering.leave w }, fun hnone v y hv hy => ?_, h.quiet, hlt⟩
  change (s.senders.leave w).table[v]? = some y at hy
  rw [WaitQueue.getElem?_leave, Option.map_eq_some_iff] at hy
  obtain ⟨z, hz, rfl⟩ := hy
  have := h.settled hnone v z (List.mem_of_mem_erase hv) hz
  split <;> exact this

/-- A sender comes back. The one that waited for its delivery withdraws the
value when it fails, and a slot it frees or leaves unused is handed on. -/
theorem resumeSender_cases (h : Inv s.toChan) {x : Waiter (SendWait V)} (hx : s.senders.table[w]? = some x) (hl : x.live = true)
    (e : Option Exn) :
    (x.data.delivering = true ∧ w ∈ s.senders.queue ∧ e.isSome = true ∧
      resumeSender s w e =
        (refreshDeadlockTimer (wakeSender (rollback (leaveSender s w) .cancelledSender)), false)) ∨
    (((x.data.delivering = true ∧ w ∈ s.senders.queue ∧ e.isSome = false) ∨
        (x.data.delivering = false ∧ x.reserved = true ∧ e.isSome = true ∧ s.closed = false)) ∧
      resumeSender s w e = (refreshDeadlockTimer (wakeSender (leaveSender s w)), false)) ∨
    ((x.data.delivering = true → w ∉ s.senders.queue) ∧
      (x.reserved = true → e.isSome = true → s.closed = true) ∧
      resumeSender s w e = (refreshDeadlockTimer (leaveSender s w), x.reserved && e.isNone)) := by
  have hfree : x.data.delivering = true → x.reserved = false := h.delivering.free w x hx
  have hassert : assertThat s (!x.reserved || decide (0 < s.senders.reserved))
      .senderReleasedTwice = s := by
    refine assertThat_pos s ?_ _
    cases hr : x.reserved with
    | false => rfl
    | true => simp [h.send.wf.reserved_pos hx hl hr]
  have hopen : w ∈ s.senders.queue → s.closed = false := by grind [h.sshut]
  have hclosed : (leaveSender s w).closed = s.closed := rfl
  have hroll : (rollback (leaveSender s w) .cancelledSender).closed = s.closed :=
    rollback_closed _ _
  unfold resumeSender
  dsimp only
  rw [WaitQueue.isReserved_some hx, isDelivering_of hx, hassert]
  generalize leaveSender s w = s1 at hclosed hroll ⊢
  by_cases hd : x.data.delivering = true
  · have hr := hfree hd
    by_cases hw : w ∈ s.senders.queue
    · grind
    · grind
  · have hd' : x.data.delivering = false := by simpa using hd
    by_cases hc : x.reserved = true ∧ e.isSome = true ∧ s.closed = false
    · grind
    · grind

theorem wakeSender_inv (hm : Mid 0 1 t.toChan) (hq : Quiet t.toChan) : Inv (wakeSender t).toChan := by
  obtain ⟨h2, hs2⟩ := wakeSender_mid hm
  obtain ⟨q, hch⟩ := wakeSender_chan t
  refine { h2 with settled := hs2, quiet := ?_ }
  rw [hch]; exact hq

/-- The slot kept for a sender that comes back is its own to fill, or was handed
on, or the channel is closed. -/
theorem resumeSender_mid (h : Inv s.toChan) {x : Waiter (SendWait V)} (hx : s.senders.table[w]? = some x)
    (hl : x.live = true) (e : Option Exn) :
    Mid 0 (if (resumeSender s w e).2 then 1 else 0) (resumeSender s w e).1.toChan ∧
      Settled (resumeSender s w e).1.toChan ∧ Quiet (resumeSender s w e).1.toChan ∧
      ((resumeSender s w e).2 = true →
        (resumeSender s w e).1.senders.reserved < (resumeSender s w e).1.freeSpace) := by
  obtain ⟨h1, hs1, hq1, hres⟩ := leaveSender_mid h hx hl
  have hle : (if x.reserved then 1 else 0) ≤ 1 := by split <;> omega
  rcases resumeSender_cases h hx hl e with ⟨hd, -, -, heq⟩ | ⟨-, heq⟩ | ⟨-, hc, heq⟩ <;> rw [heq] <;>
    simp only [refresh_toChan, Bool.false_eq_true, if_false, false_implies, and_true]
  · rw [h.delivering.free w x hx hd] at h1
    obtain ⟨h2, hq2⟩ := rollback_mid h1 hq1 .cancelledSender
    have hi := wakeSender_inv h2 hq2
    exact ⟨hi.toMid, hi.settled, hi.quiet⟩
  · have hi := wakeSender_inv (h1.mono (Nat.le_refl _) hle) hq1
    exact ⟨hi.toMid, hi.settled, hi.quiet⟩
  · refine ⟨(Mid.of_spent (b := 0) (c := (leaveSender s w).toChan) hc).2 h1, hs1, hq1, fun hspent => ?_⟩
    rw [Bool.and_eq_true] at hspent
    exact hres hspent.1

theorem runSender_inv (h : Inv s.toChan) {x : Waiter (SendWait V)} (hx : s.senders.table[w]? = some x)
    (hl : x.live = true) : Inv (runSender s w x.data).toChan := by
  unfold runSender
  generalize (s.wakers .send w).error = e
  obtain ⟨hm, hs, hq, hlt⟩ := resumeSender_mid h hx hl e
  have hi : (resumeSender s w e).2 = false → Inv (resumeSender s w e).1.toChan := by
    intro hspent
    rw [hspent] at hm
    exact { hm with settled := hs, quiet := hq }
  cases e with
  | none =>
    split
    · rename_i hd
      -- nothing is reserved for a sender that waits for its delivery
      have := h.delivering.free w x hx hd
      exact hi (by simp [resumeSender, WaitQueue.isReserved_some hx, this])
    · exact transmit_inv hm hs hq rfl hlt
  | some ex => exact hi (by simp [resumeSender])

/-! ## Closing -/

/-- In the first loop of `channel_wake_all`, with the receivers `l` still to
come: what is left of the queue besides them is reserved. -/
structure Closing (c : Chan V) (l : List Nat) (s : St V) : Prop where
  mid : Mid 0 0 { s.toChan with closed := false }
  same : ∃ q g, s.toChan = { c with receivers := { c.receivers with queue := q }, futures := g }
  left : ∀ v ∈ s.receivers.queue, s.receivers.isReserved v = true ∨ v ∈ l
  todo : ∀ v ∈ l, v ∈ s.receivers.queue
  nodup : l.Nodup

theorem failReceiver_closing {l : List Nat} (e : Exn) (h : Closing c (w :: l) s) :
    Closing c l (failReceiver e s w) := by
  have hnd := List.nodup_cons.1 h.nodup
  have hw : w ∈ s.receivers.queue := h.todo w List.mem_cons_self
  have hwf := h.mid.recv.wf
  obtain ⟨q, g, hsame⟩ := h.same
  unfold failReceiver
  split
  · rename_i hr
    refine ⟨h.mid, h.same, fun v hv => ?_, fun v hv => h.todo v (List.mem_cons_of_mem _ hv),
      hnd.2⟩
    rcases h.left v hv with hv | hv
    · exact .inl hv
    · rcases List.mem_cons.1 hv with rfl | hv
      · exact .inl hr
      · exact .inr hv
  · rename_i hr
    have hr' : s.receivers.isReserved w = false := by simpa using hr
    have hleft : ∀ v ∈ (s.receivers.remove w).queue, s.receivers.isReserved v = true ∨ v ∈ l := by
      intro v hv
      obtain ⟨hne, hv⟩ := hwf.mem_erase.1 hv
      rcases h.left v hv with hv | hv
      · exact .inl hv
      · exact .inr ((List.mem_cons.1 hv).resolve_left hne)
    have htodo : ∀ v ∈ l, v ∈ (s.receivers.remove w).queue := by
      intro v hv
      refine hwf.mem_erase.2 ⟨?_, h.todo v (List.mem_cons_of_mem _ hv)⟩
      rintro rfl
      exact hnd.1 hv
    have hq : s.receivers.remove w = { c.receivers with queue := q.erase w } := by
      rw [hsame]; rfl
    have hm : Mid 0 0 { s.toChan with receivers := s.receivers.remove w, closed := false } :=
      { h.mid with
        recv := h.mid.recv.remove w
        rheld := WaitQueue.held_remove h.mid.rheld hr'
        rshut := fun hc => (by cases hc)
        futures := h.mid.futures.remove w }
    split
    · rename_i f hfut
      obtain ⟨x, hx, hk, hcall⟩ := future?_some hfut
      have hfo : FutureOk s.receivers s.futures s.calls := h.mid.futures
      have hpend := hfo.queued w x hw hx hk
      rw [hcall] at hpend
      have hrej : rejectFuture { s with receivers := s.receivers.remove w } f e =
          emit (setFuture { s with receivers := s.receivers.remove w } f (.rejected e))
            (.rejected f e) := by
        unfold rejectFuture; rw [show s.futures f = _ from hpend]
      rw [hrej]
      refine ⟨{ hm with futures := hfo.dequeue hwf hpend nofun },
        ⟨q.erase w, (setFuture s f (.rejected e)).futures, ?_⟩, hleft, htodo, hnd.2⟩
      rw [emit_toChan]
      unfold setFuture
      rw [hq, hsame]
    · refine ⟨hm, ⟨q.erase w, g, ?_⟩, hleft, htodo, hnd.2⟩
      rw [resume_toChan, hq, hsame]

theorem failReceivers_closing (e : Exn) :
    ∀ (l : List Nat) {s : St V}, Closing c l s → Closing c [] (l.foldl (failReceiver e) s)
  | [], _, h => h
  | _ :: l, _, h => failReceivers_closing e l (failReceiver_closing e h)

/-- The second loop takes senders out of the queue, each with an exception. -/
theorem failSenders_eq (e : Exn) : ∀ (l : List Nat) (s : St V), ∃ wakers,
    l.foldl (failSender e) s =
      { s with senders := { s.senders with queue := l.foldl List.erase s.senders.queue }, wakers } ∧
    wakers .recv = s.wakers .recv ∧
    ∀ v, (wakers .send v).error ≠ none ∨ v ∉ l ∧ wakers .send v = s.wakers .send v
  | [], s => ⟨s.wakers, rfl, rfl, fun _ => .inr ⟨List.not_mem_nil, rfl⟩⟩
  | w :: l, s => by
    obtain ⟨g, heq, hr, hs⟩ := failSenders_eq e l (failSender e s w)
    refine ⟨g, heq, hr, fun v => ?_⟩
    rcases hs v with h | ⟨hv, h⟩
    · exact .inl h
    by_cases hw : v = w
    · refine .inl ?_
      rw [h]
      simp only [failSender, resume, hw, and_self, if_true]
      exact Waker.resume_some _ e
    · refine .inr ⟨fun hin => (List.mem_cons.1 hin).elim hw hv, ?_⟩
      rw [h]
      simp only [failSender, resume, hw, and_false, if_false]

theorem foldl_erase_eq_nil : ∀ (l q : List Nat), q.Nodup → (∀ i ∈ q, i ∈ l) →
    l.foldl List.erase q = []
  | [], q, _, h => by
    cases q with
    | nil => rfl
    | cons i q => exact (List.not_mem_nil (h i List.mem_cons_self)).elim
  | j :: l, q, hn, h => by
    refine foldl_erase_eq_nil l (q.erase j) (hn.erase j) (fun i hi => ?_)
    obtain ⟨hne, hi⟩ := hn.mem_erase_iff.1 hi
    exact (List.mem_cons.1 (h i hi)).resolve_left hne

/-- After `channel_wake_all` the only waiters left are receivers that have a
value reserved. -/
theorem wakeAll_mid (h : Mid 0 0 { s.toChan with closed := false }) (hq : Quiet s.toChan) (hc : s.closed = true)
    (e : Exn) :
    Mid 0 0 (wakeAll s e).toChan ∧ Quiet (wakeAll s e).toChan ∧ (wakeAll s e).senders.queue = [] ∧
      (wakeAll s e).closed = true := by
  have hstart : Closing s.toChan s.receivers.queue.reverse s := by
    refine ⟨h, ⟨s.receivers.queue, s.futures, rfl⟩, fun v hv => .inr (List.mem_reverse.2 hv),
      fun v hv => List.mem_reverse.1 hv, List.pairwise_reverse.2 (h.recv.wf.nodup.imp Ne.symm)⟩
  have h1 := failReceivers_closing e _ hstart
  unfold wakeAll
  generalize s.receivers.queue.reverse.foldl (failReceiver e) s = s1 at h1 ⊢
  obtain ⟨q, g, hsame⟩ := h1.same
  have hc1 : s1.closed = true := by rw [hsame]; exact hc
  have hst : ¬ s1.receivers.Starving (fun _ => false) := by
    intro ⟨v, hv, hfree⟩
    have hr := (h1.left v hv).resolve_right List.not_mem_nil
    obtain ⟨x, hx, hxr, -⟩ := WaitQueue.isFree_some hfree
    rw [WaitQueue.isReserved_some hx, hxr] at hr; cases hr
  obtain ⟨k, heq, -⟩ := failSenders_eq e s1.senders.queue.reverse s1
  rw [heq, foldl_erase_eq_nil _ _ h1.mid.send.wf.nodup fun i hi => List.mem_reverse.2 hi]
  refine ⟨{ h1.mid with
    send := ⟨⟨.nil, nofun, h1.mid.send.wf.count⟩, h1.mid.send.backed, nofun⟩
    sheld := fun ho => ?_
    rshut := fun _ => hst
    sshut := fun _ => rfl
    delivering := h1.mid.delivering.change nofun (fun _ x hx => ⟨x, hx, rfl, fun _ => rfl⟩) },
    by rw [hsame]; exact hq, rfl, hc1⟩
  rw [show s1.closed = false from ho] at hc1; cases hc1

theorem close_inv (h : Inv s.toChan) (reason : CloseReason) : Inv (close s reason).toChan := by
  unfold close
  split
  · exact h
  · rename_i hopen
    dsimp only
    have hs0 : (disarmDeadlockTimer { s with closeReason := reason, closed := true }).toChan =
        { s.toChan with closed := true } := by rw [disarm_toChan]
    generalize disarmDeadlockTimer { s with closeReason := reason, closed := true } = s0 at hs0 ⊢
    have hm0 : Mid 0 0 { s0.toChan with closed := false } := by
      rw [hs0]
      exact { h with sheld := fun _ => h.sheld (by simpa using hopen), rshut := nofun, sshut := nofun }
    obtain ⟨h1, hq1, hempty, hc1⟩ := wakeAll_mid hm0 (by rw [hs0]; exact h.quiet) (by rw [hs0]) (.channel reason)
    generalize wakeAll s0 (.channel reason) = s1 at h1 hq1 hempty hc1 ⊢
    obtain ⟨h2, hq2⟩ := rollback_mid h1 hq1 .close
    have hsend : (rollback s1 .close).senders.queue = [] := by
      rcases rollback_cases s1 .close with ⟨heq, -⟩ | ⟨m, -, -, heq⟩ <;> rw [heq] <;> exact hempty
    have hclosed : (rollback s1 .close).closed = true := by rw [rollback_closed]; exact hc1
    refine { h2.of_closed hclosed 0 0 with settled := fun _ w x hw _ => ?_, quiet := hq2 }
    rw [hsend] at hw
    exact (List.not_mem_nil hw).elim

/-! ## Every step -/

/-- What a step does: `step` with its guards resolved. -/
inductive Move (s : St V) : Lbl V → St V → Prop
  | sendCancelled (v : V) (token : Option Nat) (h : tokenFired s token = true) :
      Move s (.send v token) (emit (tick s) (.threw .send s.calls .operationCanceled))
  | send (v : V) (token : Option Nat) (h : tokenFired s token = false) :
      Move s (.send v token) (transmit (tick s) ⟨s.calls, .send, v⟩ token false)
  | sendAsync (v : V) : Move s (.sendAsync v) (transmitAsync (tick s) ⟨s.calls, .sendAsync, v⟩)
  | recvCancelled (token : Option Nat) (h : tokenFired s token = true) :
      Move s (.recv token) (emit (tick s) (.threw .recv s.calls .operationCanceled))
  | recv (token : Option Nat) (h : tokenFired s token = false) :
      Move s (.recv token) (receive (tick s) ⟨s.calls, .recv, token⟩ false)
  | foreach : Move s .foreach (receive (tick s) ⟨s.calls, .foreach, none⟩ false)
  | recvAsync : Move s .recvAsync (receiveAsync (tick s) s.calls)
  | close (r : CloseReason) : Move s (.close r) (close s r)
  | runRecv (w : Nat) (x : Waiter RecvWait) (hx : s.receivers.table[w]? = some x)
      (hl : x.live = true) (hk : x.data.kind ≠ .future) (hq : (s.wakers .recv w).queued = true) :
      Move s (.run .recv w) (runReceiver s w x.data)
  | runSend (w : Nat) (x : Waiter (SendWait V)) (hx : s.senders.table[w]? = some x)
      (hl : x.live = true) (hq : (s.wakers .send w).queued = true) :
      Move s (.run .send w) (runSender s w x.data)
  | cancel (side : Side) (w : Nat) (h : parkedOn s side w = true) :
      Move s (.cancel side w) (wake s side w Waker.cancel)
  | fire (t : Nat) : Move s (.fire t) { s with fired := fun u => if u = t then true else s.fired u }
  | tokenCancel (side : Side) (w : Nat) (h : parkedOn s side w = true) :
      Move s (.tokenCancel side w) (wake s side w fun k => k.resume (some .operationCanceled))
  | disposeQueued (f w : Nat) (h : s.futures f = .pending (some w)) :
      Move s (.dispose f) (setFuture { s with receivers := s.receivers.remove w } f .disposed)
  | dispose (f : Nat) (ha : s.futures f ≠ .absent) (h : ∀ w, s.futures f ≠ .pending (some w)) :
      Move s (.dispose f) (setFuture s f .disposed)
  | timer (h : s.timer.armed = true) : Move s .timer (Channel.close s s.timer.reason)
  | resolveDeadlocks (h : s.timer.registered = true) :
      Move s .resolveDeadlocks (Channel.close s .deadlock)

theorem runWaiter_move {side : Side} (hs : runWaiter s side w = some s') : Move s (.run side w) s' := by
  unfold runWaiter at hs
  split at hs
  · rename_i hp
    rw [Bool.and_eq_true] at hp
    obtain ⟨hpark, hq⟩ := hp
    cases side with
    | recv =>
      simp only [Option.map_eq_some_iff] at hs
      obtain ⟨x, hx, rfl⟩ := hs
      simp only [parkedOn, hx, Option.any_some, Bool.and_eq_true, decide_eq_true_eq] at hpark
      exact .runRecv w x hx hpark.1 hpark.2 hq
    | send =>
      simp only [Option.map_eq_some_iff] at hs
      obtain ⟨x, hx, rfl⟩ := hs
      simp only [parkedOn, hx, Option.any_some] at hpark
      exact .runSend w x hx hpark hq
  · cases hs

theorem disposeFuture_move {f : Nat} (hs : disposeFuture s f = some s') : Move s (.dispose f) s' := by
  unfold disposeFuture at hs
  split at hs
  · cases hs
  · cases hs
  · rename_i w hw
    simp only [Option.some.injEq] at hs; subst hs
    exact .disposeQueued f w hw
  · rename_i habs _ hw
    simp only [Option.some.injEq] at hs; subst hs
    exact .dispose f habs hw

theorem step_move {l : Lbl V} (hs : step s l = some s') : Move s l s' := by
  cases l with
  | send v token =>
    simp only [step] at hs
    split at hs <;> rename_i ht <;> simp only [Option.some.injEq] at hs <;> subst hs
    · exact .sendCancelled v token ht
    · exact .send v token (by simpa using ht)
  | sendAsync v =>
    simp only [step, Option.some.injEq] at hs; subst hs
    exact .sendAsync v
  | recv token =>
    simp only [step] at hs
    split at hs <;> rename_i ht <;> simp only [Option.some.injEq] at hs <;> subst hs
    · exact .recvCancelled token ht
    · exact .recv token (by simpa using ht)
  | «foreach» =>
    simp only [step, Option.some.injEq] at hs; subst hs
    exact .foreach
  | recvAsync =>
    simp only [step, Option.some.injEq] at hs; subst hs
    exact .recvAsync
  | close reason =>
    simp only [step, Option.some.injEq] at hs; subst hs
    exact .close reason
  | run side w => exact runWaiter_move hs
  | cancel side w =>
    simp only [step] at hs
    split at hs
    · rename_i hp
      simp only [Option.some.injEq] at hs; subst hs
      exact .cancel side w hp
    · cases hs
  | fire t =>
    simp only [step, Option.some.injEq] at hs; subst hs
    exact .fire t
  | tokenCancel side w =>
    simp only [step] at hs
    split at hs
    · rename_i hp
      rw [Bool.and_eq_true] at hp
      simp only [Option.some.injEq] at hs; subst hs
      exact .tokenCancel side w hp.1
    · cases hs
  | dispose f => exact disposeFuture_move hs
  | timer =>
    simp only [step] at hs
    split at hs
    · rename_i ha
      simp only [Option.some.injEq] at hs; subst hs
      exact .timer ha
    · cases hs
  | resolveDeadlocks =>
    simp only [step] at hs
    split at hs
    · rename_i ha
      simp only [Option.some.injEq] at hs; subst hs
      exact .resolveDeadlocks ha
    · cases hs

theorem tick_inv (h : Inv s.toChan) : Inv (tick s).toChan := { h with futures := h.futures.tick }

theorem step_inv {l : Lbl V} (h : Inv s.toChan) (hs : step s l = some s') : Inv s'.toChan := by
  have ht := tick_inv h
  cases step_move hs with
  | sendCancelled | recvCancelled => exact ht
  | send => exact transmit_inv ht.toMid ht.settled ht.quiet rfl nofun
  | sendAsync => exact transmitAsync_inv ht _
  | recv | «foreach» => exact receive_inv ht.toMid ht.settled ht.quiet nofun rfl nofun
  | recvAsync => exact receiveAsync_inv h
  | close | timer | resolveDeadlocks => exact close_inv h _
  | runRecv w x hx hl hk => exact runReceiver_inv h hx hl hk
  | runSend w x hx hl => exact runSender_inv h hx hl
  | cancel | fire | tokenCancel => exact h
  | disposeQueued f w hf =>
    obtain ⟨x, hx, hk⟩ := h.futures.waiter f w hf
    have hr : s.receivers.isReserved w = false := by
      rw [WaitQueue.isReserved_some hx]; exact h.futures.free w x hx hk
    exact { h with
      recv := h.recv.remove w
      rheld := WaitQueue.held_remove h.rheld hr
      rshut := fun hc hst => h.rshut hc (WaitQueue.starving_remove hst)
      futures := h.futures.dequeue h.recv.wf hf nofun }
  | dispose f ha hf => exact { h with futures := h.futures.settle ha hf nofun }

theorem fresh_inv (c p q : Nat) (hard : Bool) (answers : Nat → TimerAnswer) :
    Inv (fresh c p q hard answers : St V).toChan := by
  have hst : ∀ (α : Type) (skip : α → Bool), ¬ (WaitQueue.empty : WaitQueue α).Starving skip := nofun
  refine {
    slot := fun _ => rfl
    fits := Nat.zero_le _
    recv := ⟨WaitQueue.wf_empty, Nat.zero_le _, fun hs => (hst _ _ hs).elim⟩
    rheld := WaitQueue.held_empty
    send := ⟨WaitQueue.wf_empty, Nat.zero_le _, fun hs => (hst _ _ hs).elim⟩
    sheld := fun _ => WaitQueue.held_empty
    rshut := fun _ => hst _ _
    sshut := fun _ => rfl
    futures := ⟨fun w x hw => (nomatch hw), fun w x hx => ?_, fun f w hw => (nomatch hw), fun f _ => rfl⟩
    delivering := ⟨fun w x hw => (nomatch hw), fun w x hx => ?_, fun v w x y hv => (nomatch hv)⟩
    settled := fun _ w x hw => (nomatch hw)
    quiet := fun _ _ => rfl }
  · simp [fresh, WaitQueue.empty] at hx
  · simp [fresh, WaitQueue.empty] at hx

theorem construct_fresh {c p q : Int} {hard : Bool} {answers : Nat → TimerAnswer} (h : construct c p q hard answers = .ok s) :
    ∃ c p q, s = fresh c p q hard answers := by
  unfold construct at h
  cases hc : checkArg 1 c with
  | error e => simp [hc, bind, Except.bind] at h
  | ok c' =>
    cases hp : checkArg 2 p with
    | error e => simp [hc, hp, bind, Except.bind] at h
    | ok p' =>
      cases hq : checkArg 3 q with
      | error e => simp [hc, hp, hq, bind, Except.bind] at h
      | ok q' =>
        simp only [hc, hp, hq, bind, Except.bind, pure, Except.pure, Except.ok.injEq] at h
        exact ⟨c', p', q', h.symm⟩

theorem init_fresh (h : Init s) : ∃ c p q hard answers, s = fresh c p q hard answers := by
  obtain ⟨c, p, q, hard, answers, h⟩ := h
  obtain ⟨c', p', q', rfl⟩ := construct_fresh h
  exact ⟨c', p', q', hard, answers, rfl⟩

theorem checkArg_ok (arg : Nat) {n : Nat} (h : n ≤ 2147483647) :
    checkArg arg (n : Int) = .ok n := by
  unfold checkArg int32Max
  rw [if_neg (by omega), Int.toNat_natCast]

theorem fresh_init {c p q : Nat} (hc : c ≤ 2147483647) (hp : p ≤ 2147483647)
    (hq : q ≤ 2147483647) (hard : Bool) (answers : Nat → TimerAnswer) :
    Init (fresh c p q hard answers : St V) := by
  refine ⟨c, p, q, hard, answers, ?_⟩
  unfold construct
  rw [checkArg_ok 1 hc, checkArg_ok 2 hp, checkArg_ok 3 hq]
  rfl

/-- A run of a channel of capacity `c`, with deadlock timeouts of one second. -/
theorem exists_run (c : Nat) (hc : c ≤ 2147483647) (labels : List (Lbl V)) {P : St V → Prop} [DecidablePred P]
    (h : (LTS.exec step (fresh c 1000 1000 false fun _ => .started) labels).any (P ·) = true) :
    ∃ s, (lts V).Reachable s ∧ P s :=
  LTS.exists_of_exec (fresh_init hc (by decide) (by decide) _ _) labels h

theorem exists_restricted_run (G : St V → Lbl V → Prop) [∀ s l, Decidable (G s l)] (c : Nat)
    (hc : c ≤ 2147483647) (labels : List (Lbl V)) {P : St V → Prop} [DecidablePred P]
    (h : (LTS.execG G step (fresh c 1000 1000 false fun _ => .started) labels).any (P ·) = true) :
    ∃ s, ((lts V).restrict G).Reachable s ∧ P s :=
  LTS.exists_of_execG (fresh_init hc (by decide) (by decide) _ _) labels h

theorem inv_inductive : (lts V).Inductive fun s => Inv s.toChan where
  init s hi := by
    obtain ⟨c, p, q, hard, answers, rfl⟩ := init_fresh hi
    exact fresh_inv c p q hard answers
  step _ _ _ h hs := step_inv h hs

/-! ## Reservations over every run -/

theorem Mid.count_le (h : Mid a b c) : c.count ≤ if 0 < c.capacity then c.capacity else 1 := by
  have hfits := h.fits
  split
  · rename_i hpos
    rw [count_buffered hpos]; exact hfits
  · rename_i h0
    rw [count_rendezvous (by omega)]
    split <;> omega

theorem countP_le_one {p : Nat → Bool} {l : List Nat} (hn : l.Nodup)
    (h : ∀ i ∈ l, ∀ j ∈ l, p i = true → p j = true → i = j) : l.countP p ≤ 1 := by
  rw [List.countP_eq_length_filter]
  have hf := hn.filter p
  cases hl : l.filter p with
  | nil => exact Nat.zero_le _
  | cons i t =>
    cases t with
    | nil => exact Nat.le_refl _
    | cons j t =>
      have hi : i ∈ l.filter p := by rw [hl]; exact List.mem_cons_self
      have hj : j ∈ l.filter p := by rw [hl]; exact List.mem_cons_of_mem _ List.mem_cons_self
      obtain ⟨hil, hip⟩ := List.mem_filter.1 hi
      obtain ⟨hjl, hjp⟩ := List.mem_filter.1 hj
      rw [hl] at hf
      have hne := (List.nodup_cons.1 hf).1
      rw [h i hil j hjl hip hjp] at hne
      exact (hne List.mem_cons_self).elim

theorem Inv.delivering_le_one (h : Inv c) : c.senders.queue.countP c.isDelivering ≤ 1 := by
  refine countP_le_one h.send.wf.nodup (fun v hv w hw hdv hdw => ?_)
  obtain ⟨x, hx, hdx⟩ := isDelivering_some hdv
  obtain ⟨y, hy, hdy⟩ := isDelivering_some hdw
  exact h.delivering.one v w x y hv hw hx hy hdx hdy

/-- A queued delivering sender owns the value in the slot. -/
theorem Inv.own (h : Inv c) {x : Waiter (SendWait V)}
    (hw : w ∈ c.senders.queue) (hx : c.senders.table[w]? = some x)
    (hd : x.data.delivering = true) :
    c.capacity = 0 ∧ c.rendezvous = some x.data.msg ∧ c.committed = false := by
  obtain ⟨h0, hnone | ⟨hslot, hc⟩⟩ := h.delivering.own w x hw hx hd
  · have := h.settled hnone w x hw hx
    rw [hd] at this; cases this
  · exact ⟨h0, hslot, hc⟩

theorem Inv.delivering_slot (h : Inv c) (hw : w ∈ c.senders.queue) (hd : c.isDelivering w = true) :
    c.rendezvous.isSome = true ∧ c.committed = false := by
  obtain ⟨x, hx, hdx⟩ := isDelivering_some hd
  obtain ⟨-, hslot, hc⟩ := h.own hw hx hdx
  exact ⟨by rw [hslot]; rfl, hc⟩

/-- **No lost wakeup.** While the channel is open, no receiver without a
reservation is queued next to a value that is given to nobody, and no sender
next to such a slot. -/
theorem no_lost_wakeup (s : St V) (hr : (lts V).Reachable s) (_ho : s.closed = false) :
    ¬ ((∃ w ∈ s.receivers.queue, s.receivers.isReserved w = false) ∧
        s.receivers.reserved < s.count) ∧
    ¬ ((∃ w ∈ s.senders.queue, s.senders.isReserved w = false ∧ s.isDelivering w = false) ∧
        s.senders.reserved < s.freeSpace) := by
  have hi := inv_inductive.reachable s hr
  refine ⟨?_, ?_⟩
  · intro ⟨⟨w, hw, hres⟩, hlt⟩
    obtain ⟨x, hx, -⟩ := hi.recv.wf.known w hw
    rw [WaitQueue.isReserved_some hx] at hres
    exact hi.recv.not_starving hlt ⟨w, hw, WaitQueue.isFree_of hx hres rfl⟩
  · intro ⟨⟨w, hw, hres, hdel⟩, hlt⟩
    obtain ⟨x, hx, -⟩ := hi.send.wf.known w hw
    rw [WaitQueue.isReserved_some hx] at hres
    rw [isDelivering_of hx] at hdel
    exact hi.send.not_starving hlt ⟨w, hw, WaitQueue.isFree_of hx hres hdel⟩

/-- Two receivers wait and one value comes: the second goes on waiting, and the
value is not free. -/
theorem no_lost_wakeup_two_receivers :
    ∃ s : St Nat, s.receivers.queue = [0, 1] ∧ s.closed = false ∧
      ¬ ((∃ w ∈ s.receivers.queue, s.receivers.isReserved w = false) ∧
        s.receivers.reserved < s.count) := by
  obtain ⟨s, hr, hp⟩ := exists_run (V := Nat) 1 (by decide)
    [.recv none, .recv none, .sendAsync 7]
    (P := fun s => s.receivers.queue = [0, 1] ∧ s.closed = false) (by decide +kernel)
  exact ⟨s, hp.1, hp.2, (no_lost_wakeup s hr hp.2).1⟩

end PhpAsync.L2.Channel
