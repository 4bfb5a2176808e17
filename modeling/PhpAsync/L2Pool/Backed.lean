import PhpAsync.L2Pool.Waiters

/-!
# `Async\Pool`: reservations are backed by places

For hooks that neither suspend nor use the pool: once a call is inside a hook,
nothing else happens until it returns (`Atomic`).

`pool_wake_waiter` reserves a place without looking for one; it relies on its
caller to have freed one. `Spare k` says that `k` places are neither active nor
reserved, and `Frame.Backed` what a call inside a hook keeps free for the wakeup
at its end. The healthcheck tick is the caller that frees nothing: it counts the
resource it checks as active, and wakes a waiter also when every resource is
healthy. `TickCovered` asks for a place before the tick, `reservations_backed` is
what holds then, and `tick_overcommits` what happens otherwise.
-/
namespace PhpAsync.L2.Pool

open PhpAsync.Core PhpAsync.L1

/-- `k` places are neither active nor reserved. -/
def Spare (c : Cfg) (k : Nat) (s : St) : Prop := s.active + s.waiters.reserved + k ≤ c.maxSize

/-- What a call inside a hook has to find when the hook returns. -/
def Frame.Backed (c : Cfg) (s : St) : Frame → Prop
  | .beforeAcquire .. | .factory .. | .beforeRelease .. | .healthcheck .. => 0 < s.active ∧ Spare c 0 s
  | .rejected .. | .reportFailure .. | .reportSuccess .. | .discard .. | .unhealthy .. | .checkedLate |
    .replace .. => Spare c 1 s
  | .released .. | .closing .. => Spare c 0 s

/-- Nobody, or one call, is inside a hook. -/
inductive Backed (c : Cfg) (s : St) : Prop
  | quiet (hf : s.frames = []) (h : Spare c 0 s)
  | inHook (f : Frame) (hf : s.frames = [f]) (h : f.Backed c s)

/-- Hooks neither suspend nor re-enter. -/
def Atomic (s : St) : Lbl → Prop
  | .ret _ _ => True
  | _ => s.frames = []

/-- A tick that finds a resource to check, or a waiter without a reservation, finds a
place for it. -/
def TickCovered (c : Cfg) (s : St) : Lbl → Prop
  | .tick => s.starving ∨ s.idle ≠ [] → s.active + s.waiters.reserved < c.maxSize
  | _ => True

instance (s : St) : ∀ l, Decidable (Atomic s l) := by
  intro l
  apply @Lbl.casesOn (fun l => Decidable (Atomic s l)) l <;> intros <;> dsimp only [Atomic] <;> infer_instance

instance (c : Cfg) (s : St) : ∀ l, Decidable (TickCovered c s l) := by
  intro l
  unfold TickCovered
  split <;> infer_instance

variable {c : Cfg} {f : Frame} {s : St}

section Functions

variable {c : Cfg} {s : St} {k : Nat}

theorem Spare.mono {k' : Nat} (h : Spare c k s) (hk : k' ≤ k) : Spare c k' s := by
  unfold Spare at *
  omega

theorem Spare.wake (h : Spare c (k + 1) s) : Spare c k (wakeWaiter s) := by
  unfold Spare at *
  rw [wakeWaiter_active, wakeWaiter_reserved]
  split <;> omega

/-- A resource is given up. -/
theorem Spare.dec (hc : c.maxSize < 4294967296) (h : Spare c k s) (ha : 0 < s.active) :
    Spare c (k + 1) { s with active := dec s.active } := by
  unfold Spare at *
  have hd : Pool.dec s.active = s.active - 1 := dec_eq ha (by omega)
  show Pool.dec s.active + s.waiters.reserved + (k + 1) ≤ c.maxSize
  omega

/-- A place is taken. -/
theorem Spare.inc (hc : c.maxSize < 4294967296) (h : Spare c 1 s) :
    0 < inc s.active ∧ Spare c 0 { s with active := inc s.active } := by
  unfold Spare at *
  have hi : Pool.inc s.active = s.active + 1 := inc_eq (by omega)
  refine ⟨by omega, ?_⟩
  show Pool.inc s.active + s.waiters.reserved + 0 ≤ c.maxSize
  omega

/-- With a place to spare an attempt takes one, whether it is reserved for the
caller or not, and leaves the queue alone. -/
theorem attempt_takes (hc : c.maxSize < 4294967296) (h : Spare c 1 s) (ho : s.closed = false)
    (hi : s.circuit ≠ .inactive) (call : Nat) (mode : Mode) (has : Bool) :
    ((∃ r, (attempt c s call mode has).frames = .beforeAcquire call mode r :: s.frames) ∨
      (attempt c s call mode has).frames = .factory call mode :: s.frames) ∧
    (attempt c s call mode has).waiters = s.waiters := by
  unfold Spare at h
  rcases attempt_cases c s call mode has with ⟨hno, -⟩ |
    ⟨-, -, ⟨r, rest, -, -, heq⟩ | ⟨-, -, -, heq⟩ | ⟨⟨-, hno⟩ | ⟨hidle, hno⟩, -⟩⟩
  · rcases hno with hno | hno
    · rw [ho] at hno; cases hno
    · exact absurd hno hi
  · rw [heq]; exact ⟨.inl ⟨r, rfl⟩, rfl⟩
  · rw [heq]; exact ⟨.inr rfl, rfl⟩
  · have := le_of_unreserved_eq_zero hc hno
    omega
  · rw [total_of_idle_nil hidle (by omega)] at hno
    omega

end Functions

/-! ## Steps -/

section Steps

variable {c : Cfg} {s : St}

/-- What the waiter had reserved is a place to spare once it has left. -/
theorem spare_leave (hw : Waiting s.waiters s.wakers) (h : Spare c 0 s) {w : Nat} {x : Wait}
    (hx : parkedOn s w = some x) (l : List Ev) :
    Spare c (if s.waiters.isReserved w then 1 else 0)
      { s with waiters := s.waiters.leave w, log := l } := by
  obtain ⟨y, hy, hl, -⟩ := WaitQueue.live?_some hx
  have hpos := hw.wf.reserved_pos hy hl
  unfold Spare at *
  show s.active + (if s.waiters.isReserved w then s.waiters.reserved - 1 else s.waiters.reserved) +
    (if s.waiters.isReserved w then 1 else 0) ≤ c.maxSize
  rw [WaitQueue.isReserved_some hy]
  cases hr : y.reserved with
  | false => simpa using h
  | true =>
    have := hpos hr
    simp only [if_true]
    omega

theorem Backed.spare (h : Backed c s) (hf : s.frames = []) : Spare c 0 s := by
  cases h with
  | quiet _ h => exact h
  | inHook f hf' => rw [hf] at hf'; cases hf'

theorem Backed.frame (h : Backed c s) (hf : f ∈ s.frames) : s.frames = [f] ∧ f.Backed c s := by
  cases h with
  | quiet hn => rw [hn] at hf; cases hf
  | inHook g hg h =>
    rw [hg, List.mem_singleton] at hf
    subst hf
    exact ⟨hg, h⟩

/-- What a running call keeps free, with `b` of `active_count` in its hands and `k` places to
announce. A tick always keeps a place for its wakeup. -/
def Roomy (c : Cfg) (tick : Bool) (b k : Nat) (s : St) : Prop :=
  (b ≠ 0 → 0 < s.active) ∧ Spare c (if tick then 1 - b else k) s

namespace Roomy

variable {tick : Bool} {b k : Nat}

theorem mono {k' : Nat} (h : Roomy c tick b k s) (hk : k' ≤ k) : Roomy c tick b k' s := by
  cases tick with
  | false => exact ⟨h.1, h.2.mono hk⟩
  | true => exact h

theorem spare (h : Roomy c tick 0 k s) : Spare c 0 s := h.2.mono (Nat.zero_le _)

theorem wake (h : Roomy c tick 0 1 s) : Spare c 0 (wakeWaiter s) := by
  have h1 := h.2
  rw [Nat.sub_zero, ite_self] at h1
  exact h1.wake

theorem dec (hc : c.maxSize < 4294967296) (h : Roomy c tick 1 k s) :
    Roomy c tick 0 (k + 1) { s with active := dec s.active } := by
  have hd := h.2.dec hc (h.1 Nat.one_ne_zero)
  cases tick <;> exact ⟨fun h => (h rfl).elim, hd⟩

theorem take (hc : c.maxSize < 4294967296) (h : Roomy c tick 0 k s) (hmay : 0 < k ∨ 0 < unreserved c s)
    (i : List Resource) : Roomy c tick 1 0 { s with idle := i, active := inc s.active } := by
  have h1 : Spare c 1 s := by
    cases tick with
    | true => exact h.2
    | false =>
      rcases hmay with hk | hu
      · exact h.2.mono hk
      · exact lt_of_unreserved_pos h.spare hu
  have hinc := h1.inc hc
  cases tick <;> exact ⟨fun _ => hinc.1, hinc.2⟩

theorem backed (h : Roomy c f.isTick f.counted f.credit s) : f.Backed c (enter s f) := by
  cases f with
  | beforeAcquire | factory | beforeRelease | healthcheck => exact ⟨h.1 Nat.one_ne_zero, h.2⟩
  | _ => exact h.2

end Roomy

variable {s₀ : St} {l : Lbl} {a b k : Nat} {x : Option Resource}

theorem Start.roomy (h : Start s₀ l a b k x s) (hw : Waiting s₀.waiters s₀.wakers) (h0 : Backed c s₀)
    (ha : Atomic s₀ l) (ht : l = .tick → Spare c 1 s₀) : s.frames = [] ∧ Roomy c l.isTick b k s := by
  have quiet : s₀.frames = [] → Spare c 0 s₀ := h0.spare
  cases h with
  | call hl => cases l <;> first | exact ⟨ha, nofun, quiet ha⟩ | cases hl
  | taken hin =>
    obtain ⟨hpos, hr⟩ := checkIn_cases hin
    rcases hr with ⟨-, rfl⟩ | ⟨i, -, -, rfl⟩ <;> exact ⟨ha, fun _ => Nat.pos_of_ne_zero hpos, quiet ha⟩
  | close =>
    obtain ⟨q, k, hq, heq⟩ := wakeAllWithException_eq { newCall s₀ with closed := true } (.pool "Pool is closed")
    rw [heq]
    refine ⟨ha, nofun, ?_⟩
    show s₀.active + q.reserved + 0 ≤ c.maxSize
    rw [hq]
    exact quiet ha
  | circuit => exact ⟨ha, nofun, quiet ha⟩
  | tick => exact ⟨ha, nofun, ht rfl⟩
  | run hx => exact ⟨ha, nofun, spare_leave hw (quiet ha) hx _⟩
  | woken _ _ hl => rcases hl with rfl | rfl <;> exact ⟨ha, nofun, quiet ha⟩
  | @ret f out hf =>
    obtain ⟨hone, hb⟩ := h0.frame hf
    refine ⟨by show s₀.frames.erase f = []; rw [hone, List.erase_cons_head], ?_⟩
    cases f with
    | beforeAcquire | factory | beforeRelease | healthcheck => exact ⟨fun _ => hb.1, hb.2⟩
    | _ => exact ⟨nofun, hb⟩

theorem Mid.roomy (hc : c.maxSize < 4294967296) (h : Mid c s₀ l a b k x s)
    (hs : ∀ {a b k x s}, Start s₀ l a b k x s → s.frames = [] ∧ Roomy c l.isTick b k s) :
    s.frames = [] ∧ Roomy c l.isTick b k s := by
  induction h with
  | start h | refill _ h => exact hs h
  | dec _ ih => exact ⟨ih.1, ih.2.dec hc⟩
  | pop _ _ _ hmay ih => exact ⟨ih.1, ih.2.take hc hmay _⟩
  | create h _ _ _ _ _ _ hmay => exact ⟨(hs h).1, (hs h).2.take hc hmay _⟩
  | drop _ _ hk _ ih => exact ⟨ih.1, ih.2.mono hk⟩
  | giveUp _ h => exact ⟨(hs h).1, (hs h).2.mono (Nat.zero_le 1)⟩
  | push _ _ ih | drain _ _ _ ih | made _ _ ih | destroyed _ ih => exact ih

theorem Done.backed (hc : c.maxSize < 4294967296) (h : Done c s₀ l s)
    (hs : ∀ {a b k x s}, Start s₀ l a b k x s → s.frames = [] ∧ Roomy c l.isTick b k s) : Backed c s := by
  cases h with
  | same h => exact .quiet (hs h).1 (hs h).2.spare
  | say hm => exact .quiet (hm.roomy hc hs).1 (hm.roomy hc hs).2.spare
  | wake hm => exact .quiet ((wakeWaiter_frames _).trans (hm.roomy hc hs).1) (hm.roomy hc hs).2.wake
  | tick hm hl =>
    obtain ⟨hf, h⟩ := hm.roomy hc hs
    rw [hl] at h
    exact .quiet ((wakeWaiter_frames _).trans hf) (Spare.wake h.2)
  | @enter f s hm hf =>
    obtain ⟨hn, h⟩ := hm.roomy hc hs
    rw [← (Prod.mk.inj hf).1] at h
    exact .inHook f (by show f :: s.frames = [f]; rw [hn]) h.backed
  | @handOut _ r s hm hl =>
    obtain ⟨hn, h⟩ := hm.roomy hc hs
    rw [hl] at h
    obtain ⟨l, heq⟩ := checkOut_eq s r
    rw [heq]
    exact .quiet hn h.2
  | noPlace hm _ call mode => cases mode <;> exact .quiet (hm.roomy hc hs).1 (hm.roomy hc hs).2.spare

end Steps

/-- A tick with nothing to check and nobody to wake does nothing. -/
theorem tick_idle (hidle : s.idle = []) (hs : ¬ s.starving) : tick s = s := by
  unfold tick tickLoop wakeWaiter
  rw [hidle, WaitQueue.first_none.2 hs]
  rfl

theorem backed_inductive (hc : c.maxSize < 4294967296) :
    ((lts c).restrict fun s l => Atomic s l ∧ TickCovered c s l).Inductive
      fun s => Waiting s.waiters s.wakers ∧ Backed c s := by
  refine ((waiting_inductive c).restrict _).and (fun s hi => ?_) (fun s l s' hw _ h hs => ?_)
  · obtain ⟨_, _, _, _, outs, -, rfl⟩ := hi
    exact .quiet rfl (Nat.zero_le _)
  by_cases ht : l = .tick → s.starving ∨ s.idle ≠ []
  · exact (step_done hs.2).backed hc fun hst =>
      hst.roomy hw h hs.1.1 (by rintro rfl; exact hs.1.2 (ht rfl))
  · obtain ⟨rfl, hno⟩ := Classical.not_imp.1 ht
    obtain ⟨hst, hidle⟩ := not_or.1 hno
    have heq : s' = tick s := (Option.some.inj (Option.ite_none_right_eq_some.1 hs.2).2).symm
    rw [heq, tick_idle (Classical.not_not.1 hidle) hst]
    exact h

/-- A tick that `TickCovered` excludes exceeds the size at once: it counts the resource
that it checks, or reserves a place for the waiter that it wakes. -/
theorem tick_uncovered (hc : c.maxSize < 4294967296) (ha : s.active < c.maxSize) (hu : ¬ TickCovered c s .tick) :
    c.maxSize < (tick s).active + (tick s).waiters.reserved := by
  obtain ⟨hs, hge⟩ := Classical.not_imp.1 hu
  unfold tick tickLoop
  cases hidle : s.idle with
  | nil =>
    show c.maxSize < (wakeWaiter s).active + (wakeWaiter s).waiters.reserved
    rw [wakeWaiter_active, wakeWaiter_reserved, if_pos (hs.resolve_right (absurd hidle))]
    omega
  | cons r rest =>
    have hi : inc s.active = s.active + 1 := inc_eq (by omega)
    show c.maxSize < inc s.active + s.waiters.reserved
    omega

/-- **Counterexample.** The only resource is out and two coroutines wait. A tick finds
no idle resource and wakes the first waiter all the same: more is promised than the
pool has places, the unreserved count wraps, and the waiter that runs goes back to the
end of the queue. -/
theorem tick_overcommits :
    ∃ s s', ((lts ⟨0, 1, true⟩).restrict Atomic).Reachable s ∧ s.frames = [] ∧
      s.active + s.waiters.reserved = 2 ∧ unreserved ⟨0, 1, true⟩ s = 4294967295 ∧
      s.closed = false ∧ s.circuit = .active ∧ s.waiters.isReserved 0 = true ∧
      (s.wakers 0).error = none ∧ s.waiters.queue = [0, 1] ∧
      step ⟨0, 1, true⟩ s (.run 0) = some s' ∧ s'.frames = [] ∧ s'.waiters.queue = [1, 2] := by
  obtain ⟨s, hr, hf, ha, hu, hc, hk, hres, he, hq, hst⟩ := exists_restricted_run Atomic 0 1 (by decide) (by decide) (by decide) []
    [.acquire 0, .ret (.factory 0 (.acquire 0)) (.made ⟨7, none⟩), .acquire 0, .acquire 0, .tick]
    (P := fun s => s.frames = [] ∧ s.active + s.waiters.reserved = 2 ∧
      unreserved ⟨0, 1, true⟩ s = 4294967295 ∧ s.closed = false ∧ s.circuit = .active ∧
      s.waiters.isReserved 0 = true ∧ (s.wakers 0).error = none ∧ s.waiters.queue = [0, 1] ∧
      (step ⟨0, 1, true⟩ s (.run 0)).any (fun s' =>
        decide (s'.frames = [] ∧ s'.waiters.queue = [1, 2])) = true) (by decide +kernel)
  cases hs : step ⟨0, 1, true⟩ s (.run 0) with
  | none => rw [hs] at hst; cases hst
  | some s' => grind

/-- The call is inside `beforeAcquire` with an idle resource, or inside the factory. -/
def TakesPlace (call : Nat) (mode : Mode) (s : St) : Prop :=
  (∃ r, s.frames = [.beforeAcquire call mode r]) ∨ s.frames = [.factory call mode]

theorem unreserved_eq (hc : c.maxSize < 4294967296) (h : Spare c 0 s) :
    unreserved c s = c.maxSize - s.active - s.waiters.reserved := by
  unfold Spare at h
  unfold unreserved u32
  omega

theorem Backed.spare_zero (h : Backed c s) : Spare c 0 s := by
  cases h with
  | quiet _ h => exact h
  | inHook f _ h =>
    cases f with
    | beforeAcquire | factory | beforeRelease | healthcheck => exact h.2
    | released | closing => exact h
    | _ => exact Spare.mono h (Nat.zero_le 1)

/-- **Reservations are backed.** With hooks that neither suspend nor re-enter, in every
run whose ticks find a place for what they check and wake, no more is active and reserved
than the pool has places, and the unreserved count is exact. On an open pool whose
circuit is not open, a waiter that runs with its reservation takes an idle resource or
calls the factory, and so does its retry when `beforeAcquire` refuses the resource. -/
theorem reservations_backed (c : Cfg) (s : St)
    (hr : ((lts c).restrict fun s l => Atomic s l ∧ TickCovered c s l).Reachable s) :
    s.active + s.waiters.reserved ≤ c.maxSize ∧
    unreserved c s = c.maxSize - s.active - s.waiters.reserved ∧
    (s.closed = false → s.circuit ≠ .inactive →
      (∀ w x, s.frames = [] → parkedOn s w = some x → s.waiters.isReserved w = true →
        (s.wakers w).error = none →
        ∃ s', step c s (.run w) = some s' ∧ TakesPlace x.call (.acquire x.timeoutMs) s' ∧
          s'.waiters = s.waiters.leave w) ∧
      (∀ call mode e out, s.frames = [.rejected call mode e] → out.isMade = false →
        pending e out = none →
        ∃ s', step c s (.ret (.rejected call mode e) out) = some s' ∧ TakesPlace call mode s' ∧
          s'.waiters = s.waiters)) := by
  have hc := (reachable_lt hr.of_restrict).2
  obtain ⟨hw, hb⟩ := (backed_inductive hc).reachable s hr
  refine ⟨hb.spare_zero, unreserved_eq hc hb.spare_zero, fun ho hi => ⟨?_, ?_⟩⟩
  · intro w x hf hx hres he
    obtain ⟨y, hy, hl, -⟩ := WaitQueue.live?_some hx
    have hq := hw.woken w y hy hl (by rw [← WaitQueue.isReserved_some hy]; exact hres)
    refine ⟨runWaiter c s w x, by simp only [step, hq, if_true, hx, Option.map_some], ?_⟩
    obtain ⟨t, ⟨l, -, rfl⟩, hrun⟩ := runWaiter_cases c s w x
    have hsp := spare_leave hw (hb.spare hf) hx l
    rw [if_pos hres] at hsp
    rcases hrun with ⟨e, he', -⟩ | ⟨-, heq⟩
    · rw [he] at he'; cases he'
    · have htk := attempt_takes hc hsp ho hi x.call (.acquire x.timeoutMs) (s.waiters.isReserved w)
      rw [← heq] at htk
      unfold TakesPlace
      rw [show ([] : List Frame) = s.frames from hf.symm]
      exact htk
  · intro call mode e out hf hm hp
    have hmem : Frame.rejected call mode e ∈ s.frames := by rw [hf]; exact List.mem_singleton_self _
    have herase : s.frames.erase (.rejected call mode e) = [] := by
      rw [hf, List.erase_cons_head]
    have hsp : Spare c 1 s := (hb.frame hmem).2
    refine ⟨attempt c { s with frames := s.frames.erase (.rejected call mode e) } call mode false,
      ?_, ?_⟩
    · simp only [step, hmem, hm, resumeFrame, afterRejected, hp, Bool.false_eq_true, false_implies,
        and_self, if_true]
    · have htk := attempt_takes (s := { s with frames := s.frames.erase (.rejected call mode e) })
        hc hsp ho hi call mode false
      unfold TakesPlace
      rw [← herase]
      exact htk

/-- After a tick on a pool that nobody uses, a release wakes the waiter of the full
pool, and the waiter runs. -/
theorem reservations_backed_released :
    ∃ s s' : St, s.waiters.reserved = 1 ∧ s.active + s.waiters.reserved ≤ 1 ∧
      step ⟨0, 1, true⟩ s (.run 0) = some s' ∧ TakesPlace 3 (.acquire 5) s' := by
  obtain ⟨s, hr, hw, hf, ho, hi, hx, hres, he⟩ := exists_restricted_run
    (fun s l => Atomic s l ∧ TickCovered ⟨0, 1, true⟩ s l) 0 1 (by decide) (by decide) (by decide) []
    [.acquire 0, .ret (.factory 0 (.acquire 0)) (.made ⟨7, none⟩), .release ⟨7, none⟩,
      .ret (.beforeRelease 1 ⟨7, none⟩) .ok, .ret (.reportSuccess 1 ⟨7, none⟩) .ok, .tick,
      .ret (.healthcheck 0 ⟨7, none⟩) .ok, .acquire 0, .ret (.beforeAcquire 2 (.acquire 0) ⟨7, none⟩) .ok,
      .acquire 5, .release ⟨7, none⟩, .ret (.beforeRelease 4 ⟨7, none⟩) .ok,
      .ret (.reportSuccess 4 ⟨7, none⟩) .ok]
    (P := fun s => s.waiters.reserved = 1 ∧ s.frames = [] ∧ s.closed = false ∧
      s.circuit ≠ .inactive ∧ parkedOn s 0 = some ⟨3, 5⟩ ∧ s.waiters.isReserved 0 = true ∧
      (s.wakers 0).error = none) (by decide +kernel)
  obtain ⟨hle, -, hruns⟩ := reservations_backed _ s hr
  obtain ⟨s', hs, ht, -⟩ := (hruns ho hi).1 0 ⟨3, 5⟩ hf hx hres he
  exact ⟨s, s', hw, hle, hs, ht⟩

end PhpAsync.L2.Pool
