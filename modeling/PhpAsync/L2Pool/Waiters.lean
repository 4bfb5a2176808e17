import PhpAsync.L2Pool.Steps

/-!
# `Async\Pool`: the waiting side

What every run does to the queue and the wakers. Apart from its start, a step leaves the
waiting side alone until its end, where it may wake one waiter with a reservation or park
one. `Waiting` holds in every reachable state: the queue is well formed, and whoever holds
a reservation has been woken.
-/
namespace PhpAsync.L2.Pool

open PhpAsync.Core PhpAsync.L1

/-! ## The invariant -/

/-- The queue is well formed, and a coroutine with a reservation has been woken. -/
structure Waiting (q : WaitQueue Wait) (k : Nat → Waker) : Prop where
  wf : q.WF
  woken : ∀ w x, q.table[w]? = some x → x.live = true → x.reserved = true → (k w).queued = true

namespace Waiting

variable {q q' : WaitQueue Wait} {k k' : Nat → Waker}

theorem empty (k : Nat → Waker) : Waiting .empty k :=
  ⟨WaitQueue.wf_empty, fun w x hx => by simp [WaitQueue.empty] at hx⟩

theorem grant (h : Waiting q k) {w : Nat} (hw : q.first (fun _ => false) = some w) :
    Waiting (q.grant w) (fun i => if i = w then (k i).resume none else k i) := by
  obtain ⟨hm, hf⟩ := WaitQueue.first_mem hw
  refine ⟨WaitQueue.wf_grant h.wf hm hf, fun i x hx hl hr => ?_⟩
  split
  · rfl
  · rename_i hne
    rw [WaitQueue.getElem?_grant, Option.map_eq_some_iff] at hx
    obtain ⟨y, hy, rfl⟩ := hx
    rw [if_neg (Ne.symm hne)] at hl hr
    exact h.woken i y hy hl hr

theorem push (h : Waiting q k) (x : Wait) :
    Waiting (q.push x) (fun i => if i = q.table.length then .parked else k i) := by
  refine ⟨WaitQueue.wf_push h.wf x, fun i y hy hl hr => ?_⟩
  rw [WaitQueue.getElem?_push] at hy
  split at hy
  · cases hy; cases hr
  · rename_i hne
    rw [if_neg hne]
    exact h.woken i y hy hl hr

theorem leave (h : Waiting q k) {w : Nat} {x : Wait} (hx : q.live? w = some x) :
    Waiting (q.leave w) k := by
  obtain ⟨y, hy, hl, -⟩ := WaitQueue.live?_some hx
  refine ⟨WaitQueue.wf_leave h.wf hy hl, fun i z hz hlive hres => ?_⟩
  rw [WaitQueue.getElem?_leave, Option.map_eq_some_iff] at hz
  obtain ⟨z', hz', rfl⟩ := hz
  split at hlive
  · cases hlive
  · rename_i hne
    rw [if_neg hne] at hres
    exact h.woken i z' hz' hlive hres

/-- The queue may lose waiters that are still to run; nobody is put back to sleep. -/
theorem remove (h : Waiting q k) (w : Nat) : Waiting (q.remove w) k :=
  ⟨WaitQueue.wf_remove h.wf w, h.woken⟩

theorem wakers (h : Waiting q k) (hk : ∀ i, (k i).queued = true → (k' i).queued = true) :
    Waiting q k' :=
  ⟨h.wf, fun w x hx hl hr => hk w (h.woken w x hx hl hr)⟩

theorem wake (h : Waiting q k) (w : Nat) (f : Waker → Waker) (hf : ∀ a, (f a).queued = true) :
    Waiting q (fun i => if i = w then f (k i) else k i) := by
  refine h.wakers fun i hi => ?_
  split
  · exact hf _
  · exact hi

end Waiting

theorem wakeAll_waiting (e : Exn) : ∀ (l : List Nat) (s : St), Waiting s.waiters s.wakers →
    Waiting (l.foldl (fun s w => resume { s with waiters := s.waiters.remove w } w (some e)) s).waiters
      (l.foldl (fun s w => resume { s with waiters := s.waiters.remove w } w (some e)) s).wakers
  | [], _, h => h
  | w :: l, s, h => by
    rw [List.foldl_cons]
    exact wakeAll_waiting e l _ ((h.remove w).wake w (·.resume (some e)) fun _ => rfl)

section Steps

variable {c : Cfg} {s₀ s : St} {l : Lbl} {a b k : Nat} {x : Option Resource}

theorem wakeWaiter_waiting (h : Waiting s.waiters s.wakers) : Waiting (wakeWaiter s).waiters (wakeWaiter s).wakers := by
  rcases wakeWaiter_cases s with ⟨-, heq⟩ | ⟨w, hw, heq⟩ <;> rw [heq]
  · exact h
  · exact h.grant hw

theorem Start.waiting (h : Start s₀ l a b k x s) (h0 : Waiting s₀.waiters s₀.wakers) : Waiting s.waiters s.wakers := by
  cases h with
  | taken ht => rcases (checkIn_cases ht).2 with ⟨-, rfl⟩ | ⟨i, -, -, rfl⟩ <;> exact h0
  | close => exact wakeAll_waiting _ _ { newCall s₀ with closed := true } h0
  | run hx => exact h0.leave hx
  | woken w f _ hf => exact h0.wake w f hf
  | _ => exact h0

theorem Mid.waiting (h : Mid c s₀ l a b k x s) (h0 : Waiting s₀.waiters s₀.wakers) : Waiting s.waiters s.wakers := by
  induction h with
  | start hs | create hs | refill _ hs | giveUp _ hs => exact hs.waiting h0
  | _ => assumption

theorem Done.waiting (h : Done c s₀ l s) (h0 : Waiting s₀.waiters s₀.wakers) : Waiting s.waiters s.wakers := by
  cases h with
  | same hs => exact hs.waiting h0
  | say hm => exact hm.waiting h0
  | wake hm | tick hm => exact wakeWaiter_waiting (hm.waiting h0)
  | enter hm => exact hm.waiting h0
  | @handOut _ r s hm =>
    obtain ⟨l, heq⟩ := checkOut_eq s r
    rw [heq]
    exact hm.waiting h0
  | noPlace hm _ call mode =>
    cases mode with
    | acquire t => exact (hm.waiting h0).push ⟨call, t⟩
    | tryAcquire => exact hm.waiting h0

end Steps

theorem waiting_inductive (c : Cfg) :
    (lts c).Inductive fun s => Waiting s.waiters s.wakers where
  init s hi := by
    obtain ⟨_, _, _, _, outs, -, rfl⟩ := hi
    exact .empty _
  step _ _ _ h hs := (step_done hs).waiting h

end PhpAsync.L2.Pool
