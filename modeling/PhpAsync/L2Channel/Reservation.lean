import PhpAsync.L2Channel.Model

/-!
# `Async\Channel`: values, slots and reservations

The two waiting queues against the values in the channel and the free slots
(`Matched`), the waiting futures (`FutureOk`) and the parked sender whose value
is in the slot (`DeliveringOk`), over every run.

`Mid a b` is what holds in the middle of a method: `a` values and `b` slots may
be without an owner although somebody waits for one. Taking a value raises `b`
by one and storing a value raises `a`; `wakeSender` and `wakeReceiver` bring
them back to 0 (`wakeSender_mid`, `wakeReceiver_mid`). Between two steps
everything is handed out: `Inv` is `Mid 0 0` with two facts about the slot.
-/
namespace PhpAsync.L2.Channel

open PhpAsync.Core PhpAsync.L1

variable {V : Type}

/-! ## What the helpers leave alone -/

@[simp] theorem emit_toChan (s : St V) (e : Ev V) : (emit s e).toChan = s.toChan := rfl

@[simp] theorem resume_toChan (s : St V) (d : Side) (w : Nat) (e : Option Exn) :
    (resume s d w e).toChan = s.toChan := rfl

@[simp] theorem suspend_toChan (s : St V) (d : Side) (w : Nat) :
    (suspend s d w).toChan = s.toChan := rfl

theorem disarm_eq (s : St V) : ∃ t, disarmDeadlockTimer s = { s with timer := t } := by
  unfold disarmDeadlockTimer
  split
  · exact ⟨_, rfl⟩
  · exact ⟨s.timer, rfl⟩

theorem arm_eq (s : St V) (r : CloseReason) (n : Nat) :
    ∃ t, armDeadlockTimer s r n = { s with timer := t } := by
  unfold armDeadlockTimer
  split
  · exact ⟨s.timer, rfl⟩
  · dsimp only
    split <;> exact ⟨_, rfl⟩

/-- A refresh touches nothing but the timer. -/
theorem refresh_eq (s : St V) : ∃ t, refreshDeadlockTimer s = { s with timer := t } := by
  unfold refreshDeadlockTimer
  dsimp only
  split
  · exact disarm_eq s
  generalize (if decide (s.receivers.reserved < s.receivers.queue.length) = true then
    CloseReason.noProducers else .noConsumers) = r
  generalize (if decide (s.receivers.reserved < s.receivers.queue.length) = true then
    s.noProducerTimeoutMs else s.noConsumerTimeoutMs) = n
  split
  · exact ⟨s.timer, rfl⟩
  · obtain ⟨t, ht⟩ := disarm_eq s
    rw [ht]
    exact arm_eq { s with timer := t } _ _

@[simp] theorem refresh_toChan (s : St V) : (refreshDeadlockTimer s).toChan = s.toChan := by
  obtain ⟨t, ht⟩ := refresh_eq s
  rw [ht]

@[simp] theorem disarm_toChan (s : St V) : (disarmDeadlockTimer s).toChan = s.toChan := by
  obtain ⟨t, ht⟩ := disarm_eq s
  rw [ht]

/-! ## Waiting futures -/

/-- Pending futures and their waiters point at each other, and nothing is ever
reserved for a future: it is served in place. -/
structure FutureOk (q : WaitQueue RecvWait) (futures : Nat → Future V) (calls : Nat) : Prop where
  queued : ∀ (w : Nat) (x : Waiter RecvWait), w ∈ q.queue → q.table[w]? = some x →
    x.data.kind = .future → futures x.data.call = .pending (some w)
  free : ∀ (w : Nat) (x : Waiter RecvWait), q.table[w]? = some x → x.data.kind = .future →
    x.reserved = false
  waiter : ∀ (f w : Nat), futures f = .pending (some w) →
    ∃ x : Waiter RecvWait, q.table[w]? = some x ∧ x.data.kind = .future
  new : ∀ f, calls ≤ f → futures f = .absent

namespace FutureOk

variable {q : WaitQueue RecvWait} {futures : Nat → Future V} {calls : Nat}

variable {w : Nat}

theorem grant (h : FutureOk q futures calls) {x : Waiter RecvWait}
    (hx : q.table[w]? = some x) (hk : x.data.kind ≠ .future) :
    FutureOk (q.grant w) futures calls := by
  refine ⟨?_, ?_, ?_, h.new⟩
  · intro i y hi hy hf
    rw [WaitQueue.getElem?_grant, Option.map_eq_some_iff] at hy
    obtain ⟨z, hz, rfl⟩ := hy
    have hzf : z.data.kind = .future := by split at hf <;> exact hf
    have := h.queued i z hi hz hzf
    split <;> exact this
  · intro i y hy hf
    rw [WaitQueue.getElem?_grant, Option.map_eq_some_iff] at hy
    obtain ⟨z, hz, rfl⟩ := hy
    by_cases hi : w = i
    · subst hi
      rw [hx] at hz; cases hz
      simp only [if_true] at hf
      exact (hk hf).elim
    · simp only [hi, if_false] at hf ⊢
      exact h.free i z hz hf
  · grind [WaitQueue.getElem?_grant, h.waiter]

theorem remove (h : FutureOk q futures calls) (w : Nat) : FutureOk (q.remove w) futures calls :=
  ⟨fun i x hi hx hf => h.queued i x (List.mem_of_mem_erase hi) hx hf, h.free, h.waiter, h.new⟩

theorem leave (h : FutureOk q futures calls) (w : Nat) : FutureOk (q.leave w) futures calls := by
  refine ⟨?_, ?_, ?_, h.new⟩
  · intro i y hi hy hf
    rw [WaitQueue.getElem?_leave, Option.map_eq_some_iff] at hy
    obtain ⟨z, hz, rfl⟩ := hy
    have hzf : z.data.kind = .future := by split at hf <;> exact hf
    have := h.queued i z (List.mem_of_mem_erase hi) hz hzf
    split <;> exact this
  · grind [WaitQueue.getElem?_leave, h.free]
  · grind [WaitQueue.getElem?_leave, h.waiter]

/-- A coroutine starts to wait. -/
theorem push (h : FutureOk q futures calls) {x : RecvWait} (hx : x.kind ≠ .future) :
    FutureOk (q.push x) futures calls := by
  refine ⟨?_, ?_, ?_, h.new⟩
  · grind [WaitQueue.getElem?_push, WaitQueue.push, h.queued]
  · grind [WaitQueue.getElem?_push, h.free]
  · intro f i hf
    obtain ⟨y, hy, hyf⟩ := h.waiter f i hf
    have hlt := (List.getElem?_eq_some_iff.1 hy).1
    rw [WaitQueue.getElem?_push, if_neg (Nat.ne_of_lt hlt)]
    exact ⟨y, hy, hyf⟩

variable {f : Nat}

/-- Nobody queued waits for a future that has no waiter. -/
theorem call_ne (h : FutureOk q futures calls) (hf : ∀ w, futures f ≠ .pending (some w)) :
    ∀ (w : Nat) (x : Waiter RecvWait), w ∈ q.queue → q.table[w]? = some x →
      x.data.kind = .future → x.data.call ≠ f := by
  intro w x hw hx hk he
  have := h.queued w x hw hx hk
  rw [he] at this
  exact hf w this

theorem lt_calls (h : FutureOk q futures calls) (hf : futures f ≠ .absent) :
    f < calls := by
  rcases Nat.lt_or_ge f calls with hlt | hge
  · exact hlt
  · exact (hf (h.new f hge)).elim

variable {v : Future V}

/-- A future nobody queued waits for changes. -/
theorem set (h : FutureOk q futures calls) (hf : f < calls)
    (hn : ∀ (w : Nat) (x : Waiter RecvWait), w ∈ q.queue → q.table[w]? = some x →
      x.data.kind = .future → x.data.call ≠ f)
    (hv : ∀ w, v ≠ .pending (some w)) :
    FutureOk q (fun g => if g = f then v else futures g) calls := by
  refine ⟨?_, h.free, ?_, ?_⟩
  · grind [h.queued]
  · intro g i hg
    split at hg
    · exact (hv _ hg).elim
    · exact h.waiter g i hg
  · grind [h.new]

/-- A future without a waiter changes. -/
theorem settle (h : FutureOk q futures calls) (ha : futures f ≠ .absent)
    (hf : ∀ w, futures f ≠ .pending (some w)) (hv : ∀ w, v ≠ .pending (some w)) :
    FutureOk q (fun g => if g = f then v else futures g) calls :=
  h.set (h.lt_calls ha) (h.call_ne hf) hv

/-- A waiting future changes and its waiter leaves the queue. -/
theorem dequeue (h : FutureOk q futures calls) (hq : q.WF) (hf : futures f = .pending (some w))
    (hv : ∀ w, v ≠ .pending (some w)) :
    FutureOk (q.remove w) (fun g => if g = f then v else futures g) calls := by
  refine (h.remove w).set (h.lt_calls (by rw [hf]; nofun)) (fun i x hi hx hk he => ?_) hv
  obtain ⟨hne, hi⟩ := hq.mem_erase.1 hi
  have := h.queued i x hi hx hk
  rw [he, hf] at this
  cases this; exact hne rfl

/-- A future starts to wait. -/
theorem enqueue (h : FutureOk q futures calls) (hf : futures f = .pending none) :
    FutureOk (q.push ⟨f, .future, none⟩)
      (fun g => if g = f then .pending (some q.table.length) else futures g) calls := by
  have hlt := h.lt_calls (f := f) (by rw [hf]; nofun)
  refine ⟨?_, ?_, ?_, ?_⟩
  · intro i x hi hx hk
    rw [WaitQueue.getElem?_push] at hx
    split at hx
    · rename_i he
      cases hx
      simp only [if_true, he]
    · rename_i hne
      simp only [WaitQueue.push, List.mem_append, List.mem_singleton] at hi
      have hq := h.queued i x (hi.resolve_right hne) hx hk
      rw [if_neg fun he => ?_]
      · exact hq
      · rw [he, hf] at hq; cases hq
  · grind [WaitQueue.getElem?_push, h.free]
  · intro g i hg
    rw [WaitQueue.getElem?_push]
    split at hg
    · cases hg
      rw [if_pos rfl]
      exact ⟨_, rfl, rfl⟩
    · obtain ⟨x, hx, hk⟩ := h.waiter g i hg
      have hlt := (List.getElem?_eq_some_iff.1 hx).1
      rw [if_neg (Nat.ne_of_lt hlt)]
      exact ⟨x, hx, hk⟩
  · grind [h.new]

theorem tick (h : FutureOk q futures calls) : FutureOk q futures (calls + 1) :=
  ⟨h.queued, h.free, h.waiter, fun f hf => h.new f (by omega)⟩

end FutureOk

/-! ## The sender whose value is in the slot -/

def NoneDelivering (q : WaitQueue (SendWait V)) : Prop :=
  ∀ (w : Nat) (x : Waiter (SendWait V)), w ∈ q.queue → q.table[w]? = some x →
    x.data.delivering = false

/-- A queued delivering sender is the owner of the uncommitted value in the
slot, unless that was taken just now. -/
structure DeliveringOk (q : WaitQueue (SendWait V)) (capacity : Nat) (slot : Option (Msg V))
    (committed : Bool) : Prop where
  own : ∀ (w : Nat) (x : Waiter (SendWait V)), w ∈ q.queue → q.table[w]? = some x →
    x.data.delivering = true →
    capacity = 0 ∧ (slot = none ∨ slot = some x.data.msg ∧ committed = false)
  free : ∀ (w : Nat) (x : Waiter (SendWait V)), q.table[w]? = some x →
    x.data.delivering = true → x.reserved = false
  one : ∀ (v w : Nat) (x y : Waiter (SendWait V)), v ∈ q.queue → w ∈ q.queue →
    q.table[v]? = some x → q.table[w]? = some y → x.data.delivering = true →
    y.data.delivering = true → v = w

namespace DeliveringOk

variable {q : WaitQueue (SendWait V)} {capacity : Nat} {slot : Option (Msg V)} {committed : Bool}

/-- Any change of the table that only sets flags of waiters, none of them the
reservation of a delivering one, and takes waiters out of the queue. -/
theorem change (h : DeliveringOk q capacity slot committed) {q' : WaitQueue (SendWait V)}
    (hq : ∀ w ∈ q'.queue, w ∈ q.queue)
    (ht : ∀ (w : Nat) (x' : Waiter (SendWait V)), q'.table[w]? = some x' →
      ∃ x : Waiter (SendWait V), q.table[w]? = some x ∧ x'.data = x.data ∧
        (x.data.delivering = true → x'.reserved = x.reserved)) :
    DeliveringOk q' capacity slot committed := by
  refine ⟨?_, ?_, ?_⟩
  · grind [h.own]
  · grind [h.free]
  · grind [h.one]

theorem remove (h : DeliveringOk q capacity slot committed) (w : Nat) :
    DeliveringOk (q.remove w) capacity slot committed :=
  h.change (fun _ hi => List.mem_of_mem_erase hi) (fun _ x hx => ⟨x, hx, rfl, fun _ => rfl⟩)

theorem leave (h : DeliveringOk q capacity slot committed) (w : Nat) :
    DeliveringOk (q.leave w) capacity slot committed := by
  refine h.change (fun _ hi => List.mem_of_mem_erase hi) (fun i x' hx' => ?_)
  rw [WaitQueue.getElem?_leave, Option.map_eq_some_iff] at hx'
  obtain ⟨x, hx, rfl⟩ := hx'
  exact ⟨x, hx, by split <;> rfl, fun _ => by split <;> rfl⟩

theorem grant (h : DeliveringOk q capacity slot committed) {w : Nat}
    (hw : q.isFree (·.delivering) w = true) :
    DeliveringOk (q.grant w) capacity slot committed := by
  refine h.change (fun _ hi => hi) (fun i x' hx' => ?_)
  rw [WaitQueue.getElem?_grant, Option.map_eq_some_iff] at hx'
  obtain ⟨x, hx, rfl⟩ := hx'
  refine ⟨x, hx, by split <;> rfl, fun hd => ?_⟩
  by_cases hi : w = i
  · subst hi
    obtain ⟨y, hy, -, hs⟩ := WaitQueue.isFree_some hw
    rw [hx] at hy; cases hy
    rw [hd] at hs; cases hs
  · simp only [hi, if_false]

/-- A sender starts to wait. Only the owner of the value in the slot may wait
for its delivery. -/
theorem push (h : DeliveringOk q capacity slot committed) {x : SendWait V}
    (hx : x.delivering = true →
      capacity = 0 ∧ slot = some x.msg ∧ committed = false ∧ NoneDelivering q) :
    DeliveringOk (q.push x) capacity slot committed := by
  have hold : ∀ (w : Nat) (y : Waiter (SendWait V)), w ∈ (q.push x).queue →
      (q.push x).table[w]? = some y →
      (w = q.table.length ∧ y.data = x ∧ y.reserved = false) ∨
        (w ∈ q.queue ∧ q.table[w]? = some y) := by
    intro w y hw hy
    rw [WaitQueue.getElem?_push] at hy
    split at hy
    · rename_i he
      cases hy; exact .inl ⟨he, rfl, rfl⟩
    · grind [WaitQueue.push]
  refine ⟨?_, ?_, ?_⟩
  · grind [h.own]
  · grind [WaitQueue.getElem?_push, h.free]
  · intro v w y z hv hw hy hz hdy hdz
    rcases hold v y hv hy with ⟨hve, hye, -⟩ | ⟨hv, hy⟩ <;>
      rcases hold w z hw hz with ⟨hwe, hze, -⟩ | ⟨hw, hz⟩
    · omega
    · rw [hye] at hdy
      have := (hx hdy).2.2.2 w z hw hz
      rw [hdz] at this; cases this
    · rw [hze] at hdz
      have := (hx hdz).2.2.2 v y hv hy
      rw [hdy] at this; cases this
    · exact h.one v w y z hv hw hy hz hdy hdz

/-- The value is taken or withdrawn. -/
theorem take (h : DeliveringOk q capacity slot committed) (b : Bool) :
    DeliveringOk q capacity none b :=
  ⟨fun w x hw hx hd => ⟨(h.own w x hw hx hd).1, .inl rfl⟩, h.free, h.one⟩

/-- While no sender waits for a delivery the slot may hold anything. -/
theorem store (h : DeliveringOk q capacity slot committed) (hn : NoneDelivering q)
    (slot' : Option (Msg V)) (b : Bool) : DeliveringOk q capacity slot' b := by
  refine ⟨fun w x hw hx hd => ?_, h.free, h.one⟩
  rw [hn w x hw hx] at hd; cases hd

end DeliveringOk

/-! ## The invariant -/

/-- In the middle of a method: up to `a` values and up to `b` slots are given to
nobody although somebody waits for one. -/
structure Mid (a b : Nat) (c : Chan V) : Prop where
  slot : 0 < c.capacity → c.rendezvous = none
  fits : c.buffer.length ≤ c.capacity
  recv : c.receivers.Matched (fun _ => false) a c.count
  rheld : c.receivers.Held
  send : c.senders.Matched (·.delivering) b c.freeSpace
  sheld : c.closed = false → c.senders.Held
  rshut : c.closed = true → ¬ c.receivers.Starving (fun _ => false)
  sshut : c.closed = true → c.senders.queue = []
  futures : FutureOk c.receivers c.futures c.calls
  delivering : DeliveringOk c.senders c.capacity c.rendezvous c.committed

/-- No sender waits for the delivery of a value that has left the slot. -/
def Settled (c : Chan V) : Prop := c.rendezvous = none → NoneDelivering c.senders

/-- Nothing is reserved on a value that can still be withdrawn. -/
def Quiet (c : Chan V) : Prop :=
  c.rendezvous.isSome = true → c.committed = false → c.receivers.reserved = 0

structure Inv (c : Chan V) : Prop extends Mid 0 0 c where
  settled : Settled c
  quiet : Quiet c

variable {c : Chan V}

theorem count_buffered (h : 0 < c.capacity) : c.count = c.buffer.length := by
  simp [Chan.count, Chan.isBuffered, h]

theorem count_rendezvous (h : c.capacity = 0) :
    c.count = if c.rendezvous.isSome then 1 else 0 := by
  simp [Chan.count, Chan.isBuffered, h]

theorem freeSpace_buffered (h : 0 < c.capacity) :
    c.freeSpace = c.capacity - c.buffer.length := by
  simp [Chan.freeSpace, Chan.isBuffered, h]

theorem freeSpace_rendezvous (h : c.capacity = 0) :
    c.freeSpace = if c.rendezvous.isSome then 0 else 1 := by
  simp [Chan.freeSpace, Chan.isBuffered, h]

theorem isBuffered_iff : c.isBuffered = true ↔ 0 < c.capacity := by
  simp [Chan.isBuffered]

variable {a b : Nat}

theorem Mid.mono {a' b' : Nat} (h : Mid a b c) (ha : a ≤ a') (hb : b ≤ b') :
    Mid a' b' c :=
  { h with recv := h.recv.mono ha, send := h.send.mono hb }

/-- On a closed channel nobody waits, so slack means nothing. -/
theorem Mid.of_closed (h : Mid a b c) (hc : c.closed = true) (a' b' : Nat) :
    Mid a' b' c := by
  have hq : ¬ c.senders.Starving (·.delivering) := by
    intro ⟨w, hw, _⟩
    rw [h.sshut hc] at hw
    exact List.not_mem_nil hw
  exact { h with
    recv := h.recv.of_not_starving (h.rshut hc) a'
    send := h.send.of_not_starving hq b' }

/-! ## Taking a value -/

/-- The value `channel_take_value` returns. -/
def Chan.next (c : Chan V) : Option (Msg V) := if c.isBuffered then c.buffer.head? else c.rendezvous

theorem takeValue_snd (s : St V) : (takeValue s).2 = s.next := by
  unfold takeValue Chan.next
  split <;> rfl

variable {s : St V}

/-- A value that is given to nobody, or was given to the caller, is taken: there
is one, and its slot is free now. -/
theorem takeValue_mid (h : Mid a b s.toChan)
    (hv : s.receivers.reserved < s.count) :
    Mid (a - 1) (b + 1) (takeValue s).1.toChan ∧ ∃ m, s.next = some m := by
  have hfits := h.fits
  rcases Nat.eq_zero_or_pos s.capacity with h0 | hpos
  · -- the slot
    have hcount := count_rendezvous h0
    have hspace := freeSpace_rendezvous h0
    cases hm : s.rendezvous with
    | none => rw [hm] at hcount; simp only [Option.isSome_none] at hcount; rw [hcount] at hv; cases hv
    | some m =>
      simp only [hm, Option.isSome_some, if_true] at hcount hspace
      have hb : s.isBuffered = false := by simp [Chan.isBuffered, h0]
      have ht : takeValue s = ({ s with rendezvous := none, committed := false }, some m) := by
        simp [takeValue, hb, hm]
      have hr := h.recv
      have hs := h.send
      rw [hcount] at hr hv
      rw [hspace] at hs
      rw [ht]
      refine ⟨{ h with
        slot := fun _ => rfl
        recv := ?_
        send := ?_
        delivering := h.delivering.take false }, m, by simp [Chan.next, hb, hm]⟩
      · rw [count_rendezvous (by exact h0)]
        exact hr.use hv
      · rw [freeSpace_rendezvous (by exact h0)]
        exact hs.free
  · -- the buffer
    have hcount := count_buffered hpos
    have hspace := freeSpace_buffered hpos
    cases hm : s.buffer with
    | nil => rw [hm] at hcount; rw [hcount] at hv; cases hv
    | cons m l =>
      simp only [hm, List.length_cons] at hcount hspace hfits
      have hb : s.isBuffered = true := isBuffered_iff.2 hpos
      have ht : takeValue s = ({ s with buffer := l }, some m) := by
        simp [takeValue, hb, hm]
      have hr := h.recv
      have hs := h.send
      rw [hcount] at hr hv
      have hfree := hs.free
      have hn : s.freeSpace + 1 = s.capacity - l.length := by omega
      rw [hn] at hfree
      rw [ht]
      refine ⟨{ h with
        fits := by dsimp only; omega
        recv := ?_
        send := ?_ }, m, by simp [Chan.next, hb, hm]⟩
      · rw [count_buffered (by exact hpos)]
        exact hr.use hv
      · rw [freeSpace_buffered (by exact hpos)]
        exact hfree

/-! ## Waking -/

theorem isDelivering_some {w : Nat} (h : c.isDelivering w = true) :
    ∃ x, c.senders.table[w]? = some x ∧ x.data.delivering = true := by
  unfold Chan.isDelivering at h
  cases hx : c.senders.table[w]? with
  | none => simp [hx] at h
  | some x => exact ⟨x, rfl, by simpa [hx] using h⟩

theorem isDelivering_of {w : Nat} {x : Waiter (SendWait V)}
    (h : c.senders.table[w]? = some x) : c.isDelivering w = x.data.delivering := by
  unfold Chan.isDelivering; rw [h]; rfl

theorem future?_some {w f : Nat} (h : c.future? w = some f) :
    ∃ x, c.receivers.table[w]? = some x ∧ x.data.kind = .future ∧ x.data.call = f := by
  unfold Chan.future? at h
  split at h
  · grind
  · cases h

theorem future?_none {w : Nat} {x : Waiter RecvWait} (h : c.future? w = none)
    (hx : c.receivers.table[w]? = some x) : x.data.kind ≠ .future := by
  intro hk
  unfold Chan.future? at h
  rw [hx] at h
  simp [hk] at h

theorem wakeDeliveredSender_cases (s : St V) :
    (wakeDeliveredSender s = s ∧
      (0 < s.capacity ∨ s.rendezvous ≠ none ∨ ∀ w ∈ s.senders.queue, s.isDelivering w = false)) ∨
    ∃ w, w ∈ s.senders.queue ∧ s.isDelivering w = true ∧ s.capacity = 0 ∧ s.rendezvous = none ∧
      wakeDeliveredSender s =
        refreshDeadlockTimer (resume { s with senders := s.senders.remove w } .send w none) := by
  unfold wakeDeliveredSender
  split
  · rename_i hc
    rw [Bool.or_eq_true, isBuffered_iff] at hc
    refine .inl ⟨rfl, hc.imp_right fun ho => .inl fun hn => ?_⟩
    rw [hn] at ho; cases ho
  · rename_i hc
    simp only [Bool.or_eq_true, isBuffered_iff, not_or, Bool.not_eq_true, Nat.not_lt,
      Nat.le_zero] at hc
    split
    · rename_i hnone
      refine .inl ⟨rfl, .inr (.inr fun w hw => ?_)⟩
      simpa using List.find?_eq_none.1 hnone w hw
    · rename_i w hw
      exact .inr ⟨w, List.mem_of_find?_eq_some hw, List.find?_some hw, hc.1,
        by simpa using hc.2, rfl⟩

theorem grantSlot_cases (s : St V) :
    (grantSlot s = s ∧
      (s.freeSpace ≤ s.senders.reserved ∨ ¬ s.senders.Starving (·.delivering))) ∨
    ∃ w, s.senders.reserved < s.freeSpace ∧ s.senders.first (·.delivering) = some w ∧
      grantSlot s = refreshDeadlockTimer
        (resume (emit { s with senders := s.senders.grant w } (.granted .send w)) .send w none) := by
  unfold grantSlot
  split
  · grind [Chan.hasFreeSlot]
  · rename_i hf
    simp only [Chan.hasFreeSlot, Bool.not_eq_true', decide_eq_false_iff_not, not_not] at hf
    split
    · rename_i hnone
      exact .inl ⟨rfl, .inr (WaitQueue.first_none.1 hnone)⟩
    · rename_i w hw
      exact .inr ⟨w, hf, hw, rfl⟩

theorem wakeReceiver_cases (s : St V) :
    (wakeReceiver s = (s, false) ∧
      (s.count ≤ s.receivers.reserved ∨ ¬ s.receivers.Starving (fun _ => false))) ∨
    ∃ w, s.receivers.reserved < s.count ∧ s.receivers.first (fun _ => false) = some w ∧
      ((∃ f, s.future? w = some f ∧ wakeReceiver s = (serveFuture s w f, true)) ∨
        (s.future? w = none ∧ wakeReceiver s = (reserveValue s w, true))) := by
  unfold wakeReceiver
  split
  · grind [Chan.hasFreeValue]
  · rename_i hf
    simp only [Chan.hasFreeValue, Bool.not_eq_true', decide_eq_false_iff_not, not_not] at hf
    split
    · rename_i hnone
      exact .inl ⟨rfl, .inr (WaitQueue.first_none.1 hnone)⟩
    · rename_i w hw
      refine .inr ⟨w, hf, hw, ?_⟩
      split
      · rename_i f hfut; exact .inl ⟨f, hfut, rfl⟩
      · exact .inr ⟨‹_›, rfl⟩

/-- The sender whose value was taken leaves the queue. -/
theorem wakeDeliveredSender_mid (h : Mid a b s.toChan) :
    Mid a b (wakeDeliveredSender s).toChan ∧ Settled (wakeDeliveredSender s).toChan := by
  rcases wakeDeliveredSender_cases s with ⟨heq, hc⟩ | ⟨w, hw, hdel, h0, -, heq⟩
  · rw [heq]
    refine ⟨h, fun hnone v x hv hx => ?_⟩
    cases hd : x.data.delivering with
    | false => rfl
    | true =>
      rcases hc with hpos | hsome | hn
      · have := (h.delivering.own v x hv hx hd).1
        omega
      · exact (hsome hnone).elim
      · have := hn v hv
        rw [isDelivering_of hx, hd] at this; cases this
  · obtain ⟨x, hx, hd⟩ := isDelivering_some hdel
    have hr : s.senders.isReserved w = false := by
      rw [WaitQueue.isReserved_some hx]; exact h.delivering.free w x hx hd
    rw [heq, refresh_toChan, resume_toChan]
    refine ⟨{ h with
      send := h.send.remove w
      sheld := fun hc => WaitQueue.held_remove (h.sheld hc) hr
      sshut := fun hc => by
        have := h.sshut hc
        simp [WaitQueue.remove, this]
      delivering := h.delivering.remove w }, fun _ v y hv hy => ?_⟩
    cases hdy : y.data.delivering with
    | false => rfl
    | true =>
      obtain ⟨hne, hv⟩ := h.send.wf.mem_erase.1 hv
      exact (hne (h.delivering.one v w y x hv hw hy hx hdy hd)).elim

/-- A free slot goes to the oldest sender waiting for one. -/
theorem grantSlot_mid (h : Mid a (b + 1) s.toChan)
    (hs : Settled s.toChan) : Mid a b (grantSlot s).toChan ∧ Settled (grantSlot s).toChan := by
  have hm := h.send
  rcases grantSlot_cases s with ⟨heq, hfull | hst⟩ | ⟨w, hf, hw, heq⟩
  · rw [heq]
    exact ⟨{ h with send := ⟨hm.wf, hm.backed, fun _ => by omega⟩ }, hs⟩
  · rw [heq]
    exact ⟨{ h with send := hm.of_not_starving hst b }, hs⟩
  · obtain ⟨hq, hfree⟩ := WaitQueue.first_mem hw
    rw [heq, refresh_toChan, resume_toChan, emit_toChan]
    refine ⟨{ h with
      send := hm.grant hf hw
      sheld := fun hc => WaitQueue.held_grant (h.sheld hc) hq
      delivering := h.delivering.grant hfree }, fun hnone v y hv hy => ?_⟩
    rw [WaitQueue.getElem?_grant, Option.map_eq_some_iff] at hy
    obtain ⟨z, hz, rfl⟩ := hy
    have := hs hnone v z hv hz
    split <;> exact this

/-- **`channel_wake_sender` hands the freed slot on.** -/
theorem wakeSender_mid (h : Mid a (b + 1) s.toChan) :
    Mid a b (wakeSender s).toChan ∧ Settled (wakeSender s).toChan := by
  obtain ⟨h1, hs⟩ := wakeDeliveredSender_mid h
  exact grantSlot_mid h1 hs

/-- What `channel_wake_sender` leaves alone. -/
theorem wakeSender_chan (s : St V) :
    ∃ q, (wakeSender s).toChan = { s.toChan with senders := q } := by
  have h1 : ∃ q, (wakeDeliveredSender s).toChan = { s.toChan with senders := q } := by
    rcases wakeDeliveredSender_cases s with ⟨heq, -⟩ | ⟨w, -, -, -, -, heq⟩
    · exact ⟨s.senders, by rw [heq]⟩
    · exact ⟨_, by rw [heq]; exact refresh_toChan _⟩
  obtain ⟨q, hq⟩ := h1
  unfold wakeSender
  rcases grantSlot_cases (wakeDeliveredSender s) with ⟨heq, -⟩ | ⟨w, -, -, heq⟩
  · exact ⟨q, by rw [heq, hq]⟩
  · grind [refresh_toChan, resume_toChan, emit_toChan]

/-- What `channel_take_value` leaves alone. -/
theorem takeValue_rest (s : St V) :
    ∃ l o b, (takeValue s).1 = { s with buffer := l, rendezvous := o, committed := b } := by
  unfold takeValue
  split
  · exact ⟨_, s.rendezvous, s.committed, rfl⟩
  · exact ⟨s.buffer, _, _, rfl⟩

/-- A waiting future is served in place: its waiter leaves, the next value is
taken and the future has it. -/
theorem serveFuture_eq (h : Mid a b s.toChan)
    (hv : s.receivers.reserved < s.count) {w f : Nat}
    (hw : w ∈ s.receivers.queue) (hf : s.future? w = some f) :
    ∃ m, Mid a b (dequeueReceiver s w).toChan ∧ (dequeueReceiver s w).next = some m ∧
      Mid (a - 1) (b + 1) (setFuture (takeValue (dequeueReceiver s w)).1 f (.completed m)).toChan ∧
      serveFuture s w f = refreshDeadlockTimer (wakeSender
        (emit (setFuture (takeValue (dequeueReceiver s w)).1 f (.completed m)) (.completed f m))) := by
  obtain ⟨x, hx, hk, rfl⟩ := future?_some hf
  have hpend := h.futures.queued w x hw hx hk
  have hr : s.receivers.isReserved w = false := by
    rw [WaitQueue.isReserved_some hx]; exact h.futures.free w x hx hk
  have h1 : Mid a b (dequeueReceiver s w).toChan :=
    { h with
      recv := h.recv.remove w
      rheld := WaitQueue.held_remove h.rheld hr
      rshut := fun hc hq => h.rshut hc (WaitQueue.starving_remove hq)
      futures := h.futures.remove w }
  obtain ⟨h2, m, hm⟩ := takeValue_mid h1 hv
  refine ⟨m, h1, hm, ?_, ?_⟩
  · have hfut := h.futures.dequeue h.recv.wf hpend (v := .completed m) nofun
    obtain ⟨l, o, b, ht⟩ := takeValue_rest (dequeueReceiver s w)
    rw [ht] at h2 ⊢
    exact { h2 with futures := hfut }
  · unfold serveFuture
    dsimp only
    rw [(takeValue_snd (dequeueReceiver s w)).trans hm]
    unfold completeFuture
    obtain ⟨l, o, b, ht⟩ := takeValue_rest (dequeueReceiver s w)
    rw [ht, show (dequeueReceiver s w).futures x.data.call = _ from hpend]

/-- **`channel_wake_receiver` hands a new value on.** -/
theorem wakeReceiver_mid (h : Mid (a + 1) b s.toChan)
    (hs : Settled s.toChan) :
    Mid a b (wakeReceiver s).1.toChan ∧ Settled (wakeReceiver s).1.toChan := by
  have hm := h.recv
  rcases wakeReceiver_cases s with ⟨heq, hfull | hst⟩ | ⟨w, hf, hw, ⟨f, hfut, heq⟩ | ⟨hfut, heq⟩⟩
  · rw [heq]
    exact ⟨{ h with recv := ⟨hm.wf, hm.backed, fun _ => by dsimp only; omega⟩ }, hs⟩
  · rw [heq]
    exact ⟨{ h with recv := hm.of_not_starving hst a }, hs⟩
  · obtain ⟨m, -, -, h1, hs1⟩ := serveFuture_eq h hf (WaitQueue.first_mem hw).1 hfut
    rw [heq]
    rw [hs1, refresh_toChan]
    exact wakeSender_mid h1
  · obtain ⟨hq, hfree⟩ := WaitQueue.first_mem hw
    obtain ⟨x, hx, -, -⟩ := WaitQueue.isFree_some hfree
    rw [heq]
    dsimp only [reserveValue]
    simp only [refresh_toChan, resume_toChan, emit_toChan]
    exact ⟨{ h with
      recv := hm.grant hf hw
      rheld := WaitQueue.held_grant h.rheld hq
      rshut := fun hc hst => h.rshut hc (WaitQueue.starving_grant hst)
      futures := h.futures.grant hx (future?_none hfut hx) }, hs⟩

theorem takeValue_slot (h : 0 < s.capacity → s.rendezvous = none) :
    (takeValue s).1.rendezvous = none := by
  unfold takeValue
  split
  · rename_i hb; exact h (isBuffered_iff.1 hb)
  · rfl

theorem takeValue_dequeue (s : St V) (w : Nat) :
    ∃ b, (takeValue (dequeueReceiver s w)).1 =
      { dequeueReceiver s w with
        buffer := (takeValue s).1.buffer, rendezvous := (takeValue s).1.rendezvous,
        committed := b } := by
  have hb : (dequeueReceiver s w).isBuffered = s.isBuffered := rfl
  unfold takeValue
  rw [hb]
  split
  · exact ⟨s.committed, rfl⟩
  · exact ⟨false, rfl⟩

theorem serveFuture_chan (s : St V) (w f : Nat) :
    ∃ b q g, (serveFuture s w f).toChan =
      { s.toChan with
        buffer := (takeValue s).1.buffer, rendezvous := (takeValue s).1.rendezvous, committed := b,
        receivers := s.receivers.remove w, senders := q, futures := g } := by
  unfold serveFuture
  dsimp only
  obtain ⟨b, hr⟩ := takeValue_dequeue s w
  rw [hr]
  generalize (takeValue (dequeueReceiver s w)).2 = m
  obtain ⟨q, hq⟩ := wakeSender_chan (completeFuture
    { dequeueReceiver s w with
      buffer := (takeValue s).1.buffer, rendezvous := (takeValue s).1.rendezvous,
      committed := b } f m)
  rw [refresh_toChan, hq]
  unfold completeFuture
  split <;> exact ⟨b, q, _, rfl⟩

/-- What `channel_wake_receiver` leaves alone. -/
theorem wakeReceiver_rest (s : St V) :
    (wakeReceiver s).1.capacity = s.capacity ∧ (wakeReceiver s).1.closed = s.closed ∧
      (wakeReceiver s).1.calls = s.calls := by
  rcases wakeReceiver_cases s with ⟨heq, -⟩ | ⟨w, -, -, ⟨f, -, heq⟩ | ⟨-, heq⟩⟩
  · rw [heq]; exact ⟨rfl, rfl, rfl⟩
  · obtain ⟨b, q, g, h⟩ := serveFuture_chan s w f
    rw [heq]
    rw [h]; exact ⟨rfl, rfl, rfl⟩
  · rw [heq]
    dsimp only [reserveValue]
    rw [refresh_toChan]; exact ⟨rfl, rfl, rfl⟩

/-! ## The log -/

@[simp] theorem refresh_log (s : St V) : (refreshDeadlockTimer s).log = s.log := by
  obtain ⟨t, ht⟩ := refresh_eq s
  rw [ht]

@[simp] theorem resume_log (s : St V) (d : Side) (w : Nat) (e : Option Exn) :
    (resume s d w e).log = s.log := rfl

@[simp] theorem suspend_log (s : St V) (d : Side) (w : Nat) : (suspend s d w).log = s.log := rfl

@[simp] theorem emit_log (s : St V) (e : Ev V) : (emit s e).log = s.log ++ [e] := rfl

@[simp] theorem takeValue_log (s : St V) : (takeValue s).1.log = s.log := by
  obtain ⟨l, o, b, h⟩ := takeValue_rest s
  rw [h]

end PhpAsync.L2.Channel
