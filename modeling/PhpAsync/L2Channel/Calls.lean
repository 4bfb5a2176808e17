import PhpAsync.L2Channel.Effects

/-!
# `Async\Channel`: calls of `send()`

A call of `send()` or `sendAsync()` has its number for life: it is waiting
(as a queued or woken sender), or it has finished with a result or an exception.
Its value is accepted at most once, while it runs. `View` is what the calls can
change.

* `calls_inductive`: distinct calls, and no value accepted for one that still
  waits for a slot, or waiting for one that has finished.
-/
namespace PhpAsync.L2.Channel

open PhpAsync.Core PhpAsync.L1

variable {V : Type}

def Ev.accepted? : Ev V → Option (Msg V)
  | .accepted m => some m
  | _ => none

/-- The call of `send()` or `sendAsync()` that returns or throws here. -/
def Ev.finished? : Ev V → Option Nat
  | .sent k => some k
  | .refused k => some k
  | .threw .send k _ => some k
  | _ => none

structure View (V : Type) where
  calls : Nat
  live : Nat → Option (SendWait V)
  accepted : List (Msg V)
  finished : List Nat

namespace View

def tick (v : View V) : View V := { v with calls := v.calls + 1 }
def accept (v : View V) (m : Msg V) : View V := { v with accepted := v.accepted ++ [m] }
def finish (v : View V) (k : Nat) : View V := { v with finished := v.finished ++ [k] }
def park (v : View V) (w : Nat) (x : SendWait V) : View V :=
  { v with live := fun i => if i = w then some x else v.live i }
def leave (v : View V) (w : Nat) : View V :=
  { v with live := fun i => if w = i then none else v.live i }

end View

def view (s : St V) : View V where
  calls := s.calls
  live := s.senders.live?
  accepted := s.log.filterMap Ev.accepted?
  finished := s.log.filterMap Ev.finished?

variable {m : Msg V} {s : St V} {w : Nat} {x : SendWait V}

theorem view_note {t : St V} {e : Ev V}
    (ht : (t.calls, t.senders.live?, t.log) = (s.calls, s.senders.live?, s.log ++ [e]))
    (ha : e.accepted? = none) (hf : e.finished? = none) : view t = view s := by
  simp only [Prod.mk.injEq] at ht
  simp [view, ht, ha, hf]

theorem emit_view_finish (s : St V) {e : Ev V} {k : Nat} (ha : e.accepted? = none)
    (hf : e.finished? = some k) : view (emit s e) = (view s).finish k := by
  simp [view, View.finish, emit, List.filterMap_append, ha, hf]

/-! ## The invariant -/

structure Calls (v : View V) : Prop where
  accepted : ∀ m ∈ v.accepted, m.call < v.calls
  live : ∀ w x, v.live w = some x → x.msg.call < v.calls
  waiting : ∀ w x, v.live w = some x → x.delivering = false →
    ∀ m ∈ v.accepted, m.call ≠ x.msg.call
  distinct : ∀ i j x y, v.live i = some x → v.live j = some y → x.msg.call = y.msg.call → i = j
  finished : ∀ k ∈ v.finished, k < v.calls ∧ ∀ w x, v.live w = some x → x.msg.call ≠ k

/-- Call `k` is the one that runs: it is not parked and has not finished. -/
structure Running (v : View V) (k : Nat) : Prop where
  lt : k < v.calls
  idle : ∀ w x, v.live w = some x → x.msg.call ≠ k
  unfinished : k ∉ v.finished

def Unaccepted (v : View V) (k : Nat) : Prop := ∀ m ∈ v.accepted, m.call ≠ k

namespace Calls

variable {v : View V}

theorem tick (h : Calls v) :
    Calls v.tick ∧ Running v.tick v.calls ∧ Unaccepted v.tick v.calls := by
  refine ⟨⟨fun m hm => ?_, fun w x hx => ?_, h.waiting, h.distinct, fun k hk => ?_⟩,
    ⟨?_, fun w x hx => ?_, fun hk => ?_⟩, fun m hm => ?_⟩
  · exact Nat.lt_succ_of_lt (h.accepted m hm)
  · exact Nat.lt_succ_of_lt (h.live w x hx)
  · exact ⟨Nat.lt_succ_of_lt (h.finished k hk).1, (h.finished k hk).2⟩
  · exact Nat.lt_succ_self v.calls
  · exact Nat.ne_of_lt (h.live w x hx)
  · exact Nat.lt_irrefl _ (h.finished v.calls hk).1
  · exact Nat.ne_of_lt (h.accepted m hm)

theorem accept (h : Calls v) (hr : Running v m.call) : Calls (v.accept m) ∧ Running (v.accept m) m.call := by
  refine ⟨⟨fun n hn => ?_, h.live, fun w x hx hd n hn => ?_, h.distinct, h.finished⟩,
    ⟨hr.lt, hr.idle, hr.unfinished⟩⟩
  · rcases List.mem_append.1 hn with hn | hn
    · exact h.accepted n hn
    · rw [List.mem_singleton.1 hn]; exact hr.lt
  · rcases List.mem_append.1 hn with hn | hn
    · exact h.waiting w x hx hd n hn
    · rw [List.mem_singleton.1 hn]; exact (hr.idle w x hx).symm

theorem finish (h : Calls v) {k : Nat} (hr : Running v k) : Calls (v.finish k) := by
  refine ⟨h.accepted, h.live, h.waiting, h.distinct, fun n hn => ?_⟩
  rcases List.mem_append.1 hn with hn | hn
  · exact h.finished n hn
  · rw [List.mem_singleton.1 hn]; exact ⟨hr.lt, hr.idle⟩

theorem park (h : Calls v) (hr : Running v x.msg.call) (hx : x.delivering = false → Unaccepted v x.msg.call) :
    Calls (v.park w x) := by
  refine ⟨h.accepted, fun i y hy => ?_, fun i y hy hd => ?_, fun i j y z hy hz he => ?_,
    fun k hk => ⟨(h.finished k hk).1, fun i y hy => ?_⟩⟩
  · simp only [View.park] at hy
    split at hy
    · cases hy; exact hr.lt
    · exact h.live i y hy
  · simp only [View.park] at hy
    split at hy
    · cases hy; exact hx hd
    · exact h.waiting i y hy hd
  · grind [View.park, hr.idle, h.distinct]
  · simp only [View.park] at hy
    split at hy
    · cases hy
      intro he
      rw [he] at hr
      exact hr.unfinished hk
    · exact (h.finished k hk).2 i y hy

theorem leave (h : Calls v) (hx : v.live w = some x) : Calls (v.leave w) ∧ Running (v.leave w) x.msg.call := by
  have hold : ∀ i y, (v.leave w).live i = some y → w ≠ i ∧ v.live i = some y := by grind [View.leave]
  refine ⟨⟨h.accepted, fun i y hy => h.live i y (hold i y hy).2,
    fun i y hy => h.waiting i y (hold i y hy).2,
    fun i j y z hy hz => h.distinct i j y z (hold i y hy).2 (hold j z hz).2,
    fun k hk => ⟨(h.finished k hk).1, fun i y hy => (h.finished k hk).2 i y (hold i y hy).2⟩⟩,
    ⟨h.live w x hx, fun i y hy he => ?_, fun hk => (h.finished _ hk).2 w x hx rfl⟩⟩
  obtain ⟨hne, hy⟩ := hold i y hy
  exact hne (h.distinct w i x y hx hy he.symm)

end Calls

/-! ## Every effect -/

/-- The call that runs is neither parked nor finished. -/
def Going (c : Cfg V) : Prop :=
  Calls (view c.st) ∧ ∀ k ∈ c.call, Running (view c.st) k.msg.call ∧
    (k.stage = .fresh → Unaccepted (view c.st) k.msg.call)

theorem Going.same {t : St V} {h h' : Option (Msg V)} {k : Option (Sending V)} (hc : Going ⟨s, h, k⟩)
    (hv : view t = view s) : Going ⟨t, h', k⟩ := by
  unfold Going
  rw [hv]; exact hc

/-- The call ends. -/
theorem Going.finish {h h' : Option (Msg V)} {k : Sending V} (hc : Going ⟨s, h, some k⟩) {e : Ev V}
    (ha : e.accepted? = none) (hf : e.finished? = some k.msg.call) : Going ⟨emit s e, h', none⟩ := by
  refine ⟨?_, nofun⟩
  rw [emit_view_finish s ha hf]
  exact hc.1.finish (hc.2 k rfl).1

theorem Effect.going {P Q E : Prop} {c d : Cfg V} (he : Effect P Q E c d) (hc : Going c) : Going d := by
  cases he with
  | frame | wake | pushRecv | removeRecv | leaveRecv | commit | unpark => exact hc.same rfl
  | note he => cases he <;> exact hc.same (view_note rfl rfl rfl)
  | @deliver _ _ _ e he => cases e <;> cases he <;> exact hc.same (view_note rfl rfl rfl)
  | serve | reserve => exact hc.same (view_note rfl rfl rfl)
  | grantSend w =>
    refine hc.same (view_note (e := .granted .send w) ?_ rfl rfl)
    exact congrArg (_, ·, _) (WaitQueue.live?_grant _ w)
  | @take s =>
    obtain ⟨l, o, b, ht⟩ := takeValue_rest s
    exact hc.same (by rw [ht]; rfl)
  | start =>
    obtain ⟨ht, hr, hu⟩ := hc.1.tick
    exact ⟨ht, fun k hk => by cases hk; exact ⟨hr, fun _ => hu⟩⟩
  | tick => exact ⟨hc.1.tick.1, by simp⟩
  | @accept s h m l o b =>
    obtain ⟨hr, hu⟩ := hc.2 _ rfl
    obtain ⟨ha, hra⟩ := hc.1.accept (m := m) hr
    have hv : view (emit { s with buffer := l, rendezvous := o, committed := b } (.accepted m)) = (view s).accept m := by
      simp [view, View.accept, emit, Ev.accepted?, Ev.finished?]
    refine ⟨by rw [hv]; exact ha, fun k hk => ?_⟩
    cases hk
    exact ⟨by rw [hv]; exact hra, by simp⟩
  | @pushSend s h x =>
    obtain ⟨hr, hu⟩ := hc.2 _ rfl
    have hv : view (suspend { s with senders := s.senders.push x } .send s.senders.table.length) =
        (view s).park s.senders.table.length x := by
      simp only [view, View.park, View.mk.injEq]
      exact ⟨rfl, funext fun i => WaitQueue.live?_push s.senders x i, rfl, rfl⟩
    refine ⟨?_, by simp⟩
    rw [hv]
    exact hc.1.park hr fun hd => hu (by simp [hd])
  | @leaveSend s h w x hq hx =>
    obtain ⟨hl, hr⟩ := hc.1.leave (w := w) hx
    have hv : view (leaveSender s w) = (view s).leave w := by
      simp only [view, View.leave, View.mk.injEq]
      exact ⟨rfl, funext fun i => WaitQueue.live?_leave s.senders w i, rfl, rfl⟩
    refine ⟨by rw [hv]; exact hl, fun k hk => ?_⟩
    cases hk
    refine ⟨by rw [hv]; exact hr, fun hs => ?_⟩
    rw [hv]
    exact hc.1.waiting w x hx (by grind [stageOf])
  | @withdraw s h m =>
    have hv : view (emit { s with rendezvous := none } (.rolledBack m .cancelledSender)) = view s :=
      view_note rfl rfl rfl
    refine ⟨by rw [hv]; exact hc.1, fun k hk => ?_⟩
    cases hk
    exact ⟨by rw [hv]; exact (hc.2 _ rfl).1, by simp⟩
  | shut => exact hc.same rfl
  | shutDrop => exact hc.same (view_note rfl rfl rfl)
  | sent => exact hc.finish rfl rfl
  | refused => exact hc.finish rfl rfl
  | threw => exact hc.finish rfl rfl

theorem going_inductive : (lts V).Inductive fun s => Inv s.toChan ∧ Going ⟨s, none, none⟩ := by
  refine effects_inductive (fun c p q hard answers => ⟨?_, by simp⟩) fun _ _ he => he.going
  have hlive : ∀ w x, (view (fresh c p q hard answers : St V)).live w ≠ some x := by
    intro w x hx
    simp [view, fresh, WaitQueue.empty, WaitQueue.live?] at hx
  exact ⟨fun m hm => (List.not_mem_nil hm).elim, fun w x hx => (hlive w x hx).elim, fun w x hx => (hlive w x hx).elim,
    fun i j x y hx => (hlive i x hx).elim, fun k hk => (List.not_mem_nil hk).elim⟩

end PhpAsync.L2.Channel

