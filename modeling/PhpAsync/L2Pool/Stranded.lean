import PhpAsync.L2Pool.Size
import PhpAsync.L2Pool.Waiters

/-!
# `Async\Pool`: no stranded waiter

A free place is announced by waking a waiter, once. So while somebody waits
without a reservation, every place has to be active, reserved, or in the hands of
a call that has given it up and still has its wakeup to do. `Announced k` says
so, with `k` places the running call still has to announce, and every exit of a
call gives its place back by a wakeup or takes one.

One exit does neither: `beforeAcquire` refuses a resource, and the retry finds
that the circuit was opened meanwhile. `GiveUpCovered` keeps the runs in which
nobody waits for that place, `retry_strands` is a run outside them. The condition
for the size bound is needed too: above the maximum, a waiter can be parked next to
an idle resource.
-/
namespace PhpAsync.L2.Pool

open PhpAsync.Core PhpAsync.L1

def St.credit (s : St) : Nat := tally Frame.credit s.frames

/-- While somebody waits on an open pool, all places but `k` are active, reserved or
still to be announced by a call inside a hook. -/
def Announced (c : Cfg) (k : Nat) (s : St) : Prop :=
  s.closed = false → s.starving → c.maxSize ≤ s.active + s.waiters.reserved + s.credit + k

/-- A retry that finds the circuit open gives up a place that nobody waits for. -/
def GiveUpCovered (c : Cfg) (s : St) : Lbl → Prop
  | .ret (.rejected _ _ e) out =>
    pending e out = none → s.closed = false → s.circuit = .inactive → s.starving →
      c.maxSize < s.active + s.waiters.reserved + s.credit
  | _ => True

instance (c : Cfg) (s : St) : ∀ l, Decidable (GiveUpCovered c s l) := by
  intro l
  apply @Lbl.casesOn (fun l => Decidable (GiveUpCovered c s l)) l <;> intros
  case ret f out =>
    apply @Frame.casesOn (fun f => Decidable (GiveUpCovered c s (.ret f out))) f <;> intros <;>
      dsimp only [GiveUpCovered] <;> infer_instance
  all_goals dsimp only [GiveUpCovered]; infer_instance

namespace Announced

variable {c : Cfg} {k : Nat} {s : St}

theorem mono {k' : Nat} (h : Announced c k s) (hk : k ≤ k') : Announced c k' s := by
  intro ho hs
  have := h ho hs
  omega

theorem of_closed (h : s.closed = true) : Announced c k s := by
  intro ho
  rw [h] at ho
  cases ho

theorem wake (h : Announced c k s) (hk : k ≤ 1) : Announced c 0 (wakeWaiter s) := by
  rcases wakeWaiter_cases s with ⟨hn, heq⟩ | ⟨w, hw, heq⟩ <;> rw [heq]
  · exact fun _ hs => absurd hs hn
  · intro ho _
    have := h ho ⟨w, WaitQueue.first_mem hw⟩
    show c.maxSize ≤ s.active + (s.waiters.reserved + 1) + s.credit + 0
    omega

variable {f : Frame}

theorem enter (h : Announced c f.credit s) : Announced c 0 (enter s f) := by
  intro ho hs
  have := h ho hs
  have hcr : (Pool.enter s f).credit = f.credit + s.credit := tally_cons _ _ _
  show c.maxSize ≤ s.active + s.waiters.reserved + (Pool.enter s f).credit + 0
  omega

/-- The hook of `f` returns: its credit is the call's. -/
theorem leave (h : Announced c 0 s) (hf : f ∈ s.frames) :
    Announced c f.credit { s with frames := s.frames.erase f } := by
  intro ho hs
  have := h ho hs
  have hcr : s.credit = f.credit + tally Frame.credit (s.frames.erase f) := tally_erase _ hf
  show c.maxSize ≤
    s.active + s.waiters.reserved + tally Frame.credit (s.frames.erase f) + f.credit
  omega

/-- A place is taken. -/
theorem take (h : Announced c k s) (hk : k ≤ 1) (hlt : s.active + 1 < 4294967296) (i : List Resource) :
    Announced c 0 { s with idle := i, active := inc s.active } := by
  intro ho hs
  have := h ho hs
  have hi : inc s.active = s.active + 1 := inc_eq hlt
  show c.maxSize ≤ inc s.active + s.waiters.reserved + s.credit + 0
  omega

/-- A place is given up. -/
theorem dec (h : Announced c k s) (hlt : s.active < 4294967296) :
    Announced c (k + 1) { s with active := dec s.active } := by
  intro ho hs
  have := h ho hs
  have hd : s.active ≤ Pool.dec s.active + 1 := by unfold Pool.dec u32; omega
  show c.maxSize ≤ Pool.dec s.active + s.waiters.reserved + s.credit + (k + 1)
  omega

end Announced

/-! ## Steps -/

section Steps

variable {c : Cfg} {s₀ s : St} {l : Lbl} {a b k : Nat} {x : Option Resource}

/-- What the waiter had reserved has to be announced once it has left. -/
theorem leave_announced (h : Announced c 0 s) (w : Nat) (l : List Ev) :
    Announced c (if s.waiters.isReserved w then 1 else 0)
      { s with waiters := s.waiters.leave w, log := l } := by
  intro ho hs
  have := h ho (WaitQueue.starving_leave hs)
  show c.maxSize ≤ s.active +
    (if s.waiters.isReserved w then s.waiters.reserved - 1 else s.waiters.reserved) + s.credit +
    (if s.waiters.isReserved w then 1 else 0)
  split <;> omega

theorem Books.fits (h : Books c a b s) : s.idle.length + s.active ≤ c.maxSize := by
  have := h.room
  omega

theorem Start.announced (h : Start s₀ l a b k x s) (h0 : Announced c 0 s₀) : Announced c k s := by
  cases h with
  | taken ht => rcases (checkIn_cases ht).2 with ⟨-, rfl⟩ | ⟨i, -, -, rfl⟩ <;> exact h0
  | close =>
    obtain ⟨q, k, -, heq⟩ := wakeAllWithException_eq { newCall s₀ with closed := true } (.pool "Pool is closed")
    rw [heq]
    exact .of_closed rfl
  | tick => exact h0.mono (Nat.zero_le 1)
  | run => exact leave_announced h0 _ _
  | ret hf => exact h0.leave hf
  | _ => exact h0

theorem Mid.announced (hc : c.maxSize < 4294967296) (h : Mid c s₀ l a b k x s) (hb : Books c 0 0 s₀)
    (h0 : Announced c 0 s₀) (hr : RoomCovered c s₀ l) (hg : GiveUpCovered c s₀ l) : Announced c k s := by
  induction h with
  | start hs | refill _ hs => exact hs.announced h0
  | dec hm ih =>
    have := (hm.books hc hb hr).fits
    exact ih.dec (by omega)
  | pop hm hk hidle _ ih =>
    have hfit := (hm.books hc hb hr).fits
    rw [hidle, List.length_cons] at hfit
    exact ih.take hk (by omega) _
  | create hs hk _ _ _ hidle hlt =>
    have hfit := (hs.books hb hr).fits
    rw [total_of_idle_nil hidle (by omega)] at hlt
    exact (hs.announced h0).take hk (by omega) _
  | drop _ _ _ hcl ih =>
    rcases hcl with rfl | hcl
    · exact ih
    · exact .of_closed hcl
  | @giveUp call mode e out s hl hs hp hi =>
    subst hl
    cases hs with
    | @ret _ _ hf =>
      intro ho hs
      have hlt := hg hp ho hi hs
      have hcr : s₀.credit = Frame.credit (.rejected call mode e) +
        tally Frame.credit (s₀.frames.erase (.rejected call mode e)) := tally_erase _ hf
      change s₀.credit = 1 + _ at hcr
      show c.maxSize ≤ s₀.active + s₀.waiters.reserved +
        tally Frame.credit (s₀.frames.erase (.rejected call mode e)) + 0
      omega
  | push _ _ ih | drain _ _ _ ih | made _ _ ih | destroyed _ ih => exact ih

theorem Done.announced (hc : c.maxSize < 4294967296) (h : Done c s₀ l s) (hb : Books c 0 0 s₀)
    (h0 : Announced c 0 s₀) (hr : RoomCovered c s₀ l) (hg : GiveUpCovered c s₀ l) : Announced c 0 s := by
  cases h with
  | same hs => exact hs.announced h0
  | say hm =>
    have hs := hm.announced hc hb h0 hr hg
    exact hs
  | wake hm => exact (hm.announced hc hb h0 hr hg).wake (Nat.le_refl 1)
  | tick hm _ hk => exact (hm.announced hc hb h0 hr hg).wake hk
  | enter hm => exact (hm.announced hc hb h0 hr hg).enter
  | @handOut _ r s hm =>
    obtain ⟨l, heq⟩ := checkOut_eq s r
    rw [heq]
    have hs := hm.announced hc hb h0 hr hg
    exact hs
  | @noPlace _ s hm hno call mode =>
    have hfull : c.maxSize ≤ s.active + s.waiters.reserved := by
      have := (hm.books hc hb hr).fits
      rcases hno with hno | ⟨hidle, hno⟩
      · exact le_of_unreserved_eq_zero hc hno
      · rw [total_of_idle_nil hidle (by omega)] at hno
        omega
    intro _ _
    cases mode <;> exact Nat.le_trans hfull (Nat.le_trans (Nat.le_add_right _ _) (Nat.le_add_right _ _))

/-- A retry that `GiveUpCovered` excludes leaves a waiter behind next to a place that
nobody is going to announce. -/
theorem strands_of_uncovered {call : Nat} {mode : Mode} {e : Option Exn} {out : Outcome} {s' : St}
    (hu : ¬ GiveUpCovered c s (.ret (.rejected call mode e) out))
    (hs : step c s (.ret (.rejected call mode e) out) = some s') : ¬ Announced c 0 s' := by
  simp only [GiveUpCovered, Classical.not_imp, Nat.not_lt] at hu
  obtain ⟨hp, ho, hi, hst, hge⟩ := hu
  simp only [step] at hs
  obtain ⟨hf, ⟨⟩⟩ := Option.ite_none_right_eq_some.1 hs
  have hcr : s.credit = Frame.credit (.rejected call mode e) +
    tally Frame.credit (s.frames.erase (.rejected call mode e)) := tally_erase _ hf.1
  change s.credit = 1 + _ at hcr
  -- the retry gives up: it has no reservation, so nobody is woken
  have hret : ∃ ev, resumeFrame c { s with frames := s.frames.erase (.rejected call mode e) } (.rejected call mode e)
      out = emit { s with frames := s.frames.erase (.rejected call mode e) } ev := by
    simp only [resumeFrame, afterRejected, hp, attempt, ho, hi, Bool.false_eq_true, if_false, if_true]
    cases mode with
    | acquire t => exact ⟨_, rfl⟩
    | tryAcquire => exact ⟨_, rfl⟩
  intro hann
  obtain ⟨ev, heq⟩ := hret
  rw [heq] at hann
  have hge' : c.maxSize ≤ s.active + s.waiters.reserved +
      tally Frame.credit (s.frames.erase (.rejected call mode e)) + 0 := hann ho hst
  omega

end Steps

theorem announced_inductive {c : Cfg} (hc : c.maxSize < 4294967296) (hle : c.minSize ≤ c.maxSize) :
    ((lts c).restrict fun s l => RoomCovered c s l ∧ GiveUpCovered c s l).Inductive
      fun s => Waiting s.waiters s.wakers ∧ Books c 0 0 s ∧ Announced c 0 s := by
  refine ((waiting_inductive c).restrict _).and (fun s hi => ?_) (fun s l s' _ _ h hs => ?_)
  · obtain ⟨_, _, _, _, outs, -, rfl⟩ := hi
    refine ⟨create_books hle outs, fun _ hs => ?_⟩
    obtain ⟨w, hw, -⟩ := hs
    cases hw
  · have hd := step_done hs.2
    exact ⟨hd.books hc h.1 hs.1.1, hd.announced hc h.1 h.2 hs.1.1 hs.1.2⟩

/-- No woken waiter is still to run. -/
def Settled (s : St) : Prop := ∀ w x, parkedOn s w = some x → (s.wakers w).queued = false

/-- In a settled state nothing is reserved, and whoever is queued waits for a place. -/
theorem Settled.starving {s : St} (h : Settled s) (hw : Waiting s.waiters s.wakers)
    (hq : s.waiters.queue ≠ []) : s.waiters.reserved = 0 ∧ s.starving := by
  have hnone : ∀ (w : Nat) (x : Waiter Wait), s.waiters.table[w]? = some x →
      x.live = true → x.reserved = false := by
    intro w x hx hl
    cases hr : x.reserved with
    | false => rfl
    | true =>
      have hqueued := hw.woken w x hx hl hr
      rw [h w x.data (WaitQueue.live?_of hx hl)] at hqueued
      cases hqueued
  refine ⟨?_, ?_⟩
  · apply Nat.eq_zero_of_not_pos
    intro hpos
    obtain ⟨w, x, hx, hl, hr⟩ := hw.wf.exists_reserved hpos
    rw [hnone w x hx hl] at hr
    cases hr
  · obtain ⟨w, hm⟩ := List.exists_mem_of_ne_nil _ hq
    obtain ⟨x, hx, hl⟩ := hw.wf.known w hm
    exact ⟨w, hm, WaitQueue.isFree_of hx (hnone w x hx hl) rfl⟩

/-- **Counterexample.** With one place, a call is inside `beforeAcquire` and a second
coroutine waits. The circuit is opened, `beforeAcquire` refuses the resource, and the
retry gives up without waking anybody: also after the circuit is closed again the
waiter is parked next to a free place. -/
theorem retry_strands :
    ∃ s, (lts ⟨1, 1, true⟩).Reachable s ∧ s.closed = false ∧ s.circuit = .active ∧
      s.frames = [] ∧ Settled s ∧ s.waiters.queue = [0] ∧ s.active = 0 := by
  obtain ⟨s, hr, ho, hi, hf, hlen, hk, hq, ha⟩ := exists_run 1 1 (by decide) (by decide) (by decide) [.made ⟨7, none⟩]
    [.acquire 0, .acquire 0, .setCircuit .inactive,
      .ret (.beforeAcquire 0 (.acquire 0) ⟨7, none⟩) .no, .ret (.rejected 0 (.acquire 0) none) .ok,
      .setCircuit .active]
    (P := fun s => s.closed = false ∧ s.circuit = .active ∧ s.frames = [] ∧
      s.waiters.table.length = 1 ∧ (s.wakers 0).queued = false ∧ s.waiters.queue = [0] ∧
      s.active = 0) (by decide +kernel)
  refine ⟨s, hr, ho, hi, hf, fun w x hx => ?_, hq, ha⟩
  obtain ⟨y, hy, -⟩ := WaitQueue.live?_some hx
  have := (List.getElem?_eq_some_iff.1 hy).1
  rw [show w = 0 by omega]
  exact hk

/-- **No stranded waiter.** In every run in which the size bound's condition holds and
no retry gives up a place somebody waits for: when the pool is open, nobody is inside a
hook and no woken waiter is still to run, a waiter is parked only if every place is
active and no resource is idle. -/
theorem no_stranded_waiter (c : Cfg) (s : St) (hle : c.minSize ≤ c.maxSize)
    (hr : ((lts c).restrict fun s l => RoomCovered c s l ∧ GiveUpCovered c s l).Reachable s)
    (ho : s.closed = false) (hf : s.frames = []) (hset : Settled s) (hq : s.waiters.queue ≠ []) :
    s.active = c.maxSize ∧ s.idle = [] := by
  obtain ⟨hw, hb, ha⟩ :=
    (announced_inductive (reachable_lt hr.of_restrict).2 hle).reachable s hr
  obtain ⟨hres, hst⟩ := hset.starving hw hq
  have hfull := ha ho hst
  have hcr : s.credit = 0 := by unfold St.credit; rw [hf]; rfl
  have hfit := hb.fits
  refine ⟨by omega, List.eq_nil_of_length_eq_zero (by omega)⟩

/-- A release is refused by `beforeRelease`, and the waiter it wakes makes a resource. -/
theorem no_stranded_waiter_parked :
    ∃ s : St, s.waiters.queue = [1] ∧ s.active = 1 ∧ s.idle = [] := by
  obtain ⟨s, hr, ho, hf, hlen, h0, hk, hq⟩ := exists_restricted_run
    (fun s l => RoomCovered ⟨0, 1, true⟩ s l ∧ GiveUpCovered ⟨0, 1, true⟩ s l) 0 1 (by decide)
    (by decide) (by decide) []
    [.acquire 0, .ret (.factory 0 (.acquire 0)) (.made ⟨7, none⟩), .acquire 0, .acquire 0,
      .release ⟨7, none⟩, .ret (.beforeRelease 3 ⟨7, none⟩) .no,
      .ret (.reportFailure 3 ⟨7, none⟩) .ok, .ret (.discard 3 none) .ok, .run 0,
      .ret (.factory 1 (.acquire 0)) (.made ⟨8, none⟩)]
    (P := fun s => s.closed = false ∧ s.frames = [] ∧ s.waiters.table.length = 2 ∧
      parkedOn s 0 = none ∧ (s.wakers 1).queued = false ∧ s.waiters.queue = [1]) (by decide +kernel)
  have hset : Settled s := by
    intro w x hx
    obtain ⟨y, hy, -⟩ := WaitQueue.live?_some hx
    have := (List.getElem?_eq_some_iff.1 hy).1
    rcases Nat.lt_or_ge w 1 with hw | hw
    · rw [show w = 0 by omega, h0] at hx
      cases hx
    · rw [show w = 1 by omega]
      exact hk
  obtain ⟨ha, hidle⟩ :=
    no_stranded_waiter ⟨0, 1, true⟩ s (by decide) hr ho hf hset (by rw [hq]; nofun)
  exact ⟨s, hq, ha, hidle⟩

end PhpAsync.L2.Pool
