import PhpAsync.L2Scheduler.Steps

/-!
# Fibers are not shared

A coroutine owns the fiber its code is on, from its start to the end of its finalization.
In between the fiber stands at the suspension of its owner; behind it the fiber is free: it
goes on in its loop, where it takes another coroutine, waits in the pool, or ends. A
coroutine cancelled before its start is finalized on whatever fiber meets its entry, and
owns none.

**Hypotheses** (`Unsuspended`): a destructor that runs when the object of a finalized
coroutine is released does not suspend. The coroutine has no fiber then: the code of the
destructor stays on the stack of another one, or of a fiber that nobody owns.

**Results.**
* `owned_inductive`: the fiber a coroutine holds is the fiber on whose stack it is.
* `fibers_never_shared`: no two coroutines own the same fiber, those in the pool are owned
  by nobody, and a fiber that gets control in the pool is given a coroutine that owns it.
* `destructor_on_foreign_stack`: the counterexample.
-/
namespace PhpAsync.L2.Scheduler

open PhpAsync.Core
open Function (update update_eq_self update_of_ne update_self)
open PhpAsync.L2.Coroutine (Status)

/-! ## Stacks -/

/-- Whose code is on the stack. -/
def Stack.owner : Stack → Option Nat
  | .code c _ | .poll c _ | .host (.suspend c _ _) _ | .finish c (some _) _ _ => some c
  | .fresh | .host (.loop _) _ | .finish _ none _ _ | .ended => none

/-- The fiber waits in the pool. -/
def Stack.pooled : Stack → Bool
  | .host (.loop _) .pooled | .host (.loop _) .idle => true
  | _ => false

/-- The stack of the scheduler. -/
def Stack.free : Stack → Bool
  | .fresh => true
  | .host (.loop _) w => decide (w ≠ .pooled ∧ w ≠ .idle)
  | _ => false

/-- Who is finalized in place has not started; who is finalized on the own fiber is marked,
and the main coroutine has given its fiber up. -/
def Stack.Fits (co : Nat → Co) : Stack → Prop
  | .host _ (.finalize d _ _) | .host _ (.final _ (.finalize d _ _)) => d ≠ 1 ∧ (co d).started = false
  | .finish c l _ _ => (co c).finished = true ∧ (l = none → (co c).fiber = none)
  | _ => True

variable {z : Stack}

theorem Stack.Fits.congr {co co' : Nat → Co} (h : z.Fits co)
    (hs : ∀ c, (co' c).started = (co c).started) (hf : ∀ c, (co c).finished = true → (co' c).finished = true)
    (hb : ∀ c, (co' c).fiber = (co c).fiber) : z.Fits co' := by
  unfold Stack.Fits at h ⊢
  split at h
  · exact ⟨h.1, (hs _).trans h.2⟩
  · exact ⟨h.1, (hs _).trans h.2⟩
  · exact ⟨hf _ h.1, fun hl => (hb _).trans (h.2 hl)⟩
  · trivial

theorem Stack.free_owner (h : z.free = true) : z.owner = none := by
  cases z with
  | host k w => cases k with
    | loop l => rfl
    | suspend c saved l => cases h
  | fresh => rfl
  | code | poll | finish | ended => cases h

theorem Stack.free_pooled (h : z.free = true) : z.pooled = false := by
  cases z with
  | host k w => cases k with
    | loop l =>
      obtain ⟨h₁, h₂⟩ := of_decide_eq_true h
      cases w <;> first | rfl | exact absurd rfl h₁ | exact absurd rfl h₂
    | suspend c saved l => cases h
  | fresh => rfl
  | code | poll | finish | ended => cases h

theorem Stack.pooled_cases (h : z.pooled = true) :
    ∃ l, z = .host (.loop l) .pooled ∨ z = .host (.loop l) .idle := by
  cases z with
  | host k w => cases k with
    | loop l =>
      cases w with
      | pooled => exact ⟨l, .inl rfl⟩
      | idle => exact ⟨l, .inr rfl⟩
      | _ => cases h
    | suspend c saved l => cases h
  | fresh | code | poll | finish | ended => cases h

theorem Stack.pooled_owner (h : z.pooled = true) : z.owner = none := by
  obtain ⟨l, rfl | rfl⟩ := Stack.pooled_cases h <;> rfl

/-! ## The tables -/

/-- The scheduler is in no table, and only a coroutine that has not started is ignored. -/
structure Listed (s : St) : Prop where
  made : 2 ≤ s.made
  queue : 1 ∉ s.queue
  registry : 1 ∉ s.registry
  ignored : ∀ c, (s.co c).status = .ignored → (s.co c).started = false

section Listed

variable {s t : St} {c : Nat}

/-- The tables are the same or smaller. -/
theorem Listed.shrink (h : Listed s) (hm : t.made = s.made) (hq : ∀ d ∈ t.queue, d ∈ s.queue)
    (hr : ∀ d ∈ t.registry, d ∈ s.registry)
    (hi : ∀ c, (t.co c).status = .ignored → (t.co c).started = false) : Listed t :=
  ⟨hm ▸ h.made, fun hd => h.queue (hq 1 hd), fun hd => h.registry (hr 1 hd), hi⟩

theorem Listed.of_eq (h : Listed s) (he : (t.made, t.queue, t.registry, t.co) = (s.made, s.queue, s.registry, s.co))
    : Listed t := by
  simp only [Prod.mk.injEq] at he
  obtain ⟨hm, hq, hr, hco⟩ := he
  exact h.shrink hm (fun _ hd => hq ▸ hd) (fun _ hd => hr ▸ hd) (hco ▸ h.ignored)

theorem Listed.setCo (h : Listed s) {y : Co} (hy : y.status = .ignored → y.started = false) :
    Listed (s.setCo c y) := by
  refine h.shrink rfl (fun _ hd => hd) (fun _ hd => hd) fun d hd => ?_
  by_cases hdc : d = c
  · subst hdc
    simp only [St.setCo_co, update_self] at hd ⊢
    exact hy hd
  · simp only [St.setCo_co, update_of_ne hdc] at hd ⊢
    exact h.ignored d hd

theorem Listed.push (h : Listed s) (hc : c ≠ 1) {q : List Nat} (hq : ∀ d ∈ q, d ∈ s.queue ∨ d = c)
    {r : List Nat} (hr : ∀ d ∈ r, d ∈ s.registry ∨ d = c) (rs : List Nat) :
    Listed { s.setStatus c .queued with queue := q, registry := r, resumed := rs } := by
  have hset : Listed (s.setStatus c .queued) := h.setCo fun hy => by cases hy
  refine ⟨h.made, fun hd => ?_, fun hd => ?_, hset.ignored⟩
  · exact (hq 1 hd).elim h.queue fun he => hc he.symm
  · exact (hr 1 hd).elim h.registry fun he => hc he.symm

theorem Listed.enqueue (h : Listed s) (hc : c ≠ 1) : Listed (enqueue s c) := by
  unfold Scheduler.enqueue
  split
  · exact h
  · grind [h.push]

theorem Listed.cancel (h : Listed s) (hc : c ≠ 1) (safely : Bool) : Listed (cancel s c safely) := by
  have hmark : Listed (s.setCo c { s.co c with cancelled := true }) := h.setCo (h.ignored c)
  unfold Scheduler.cancel
  dsimp only
  split
  · exact h
  split
  · exact hmark
  split
  · exact h
  split
  · rename_i hs
    refine (hmark.enqueue hc).setCo fun _ => ?_
    rw [(enqueue_control _ c).started]
    simpa using hs
  split
  · exact hmark
  · exact hmark.enqueue hc

theorem Listed.resume (h : Listed s) (hc : c ≠ 1) (e : Nat) : Listed (resume s c e) := by
  unfold Scheduler.resume
  split
  · exact h.of_eq rfl
  split
  · exact h
  split
  · exact h.setCo fun hy => by cases hy
  · exact h.push hc (fun d hd => by simpa using hd) (fun d hd => .inl hd) _

theorem Listed.spawn (h : Listed s) (front : Bool) : Listed (spawn s front) := by
  have hc : s.made ≠ 1 := fun he => absurd h.made (by omega)
  have hp := h.push hc (q := if front then s.made :: s.queue else s.queue ++ [s.made])
    (r := s.registry ++ [s.made])
    (fun d hd => by cases front <;> simpa [or_comm] using hd) (fun d hd => by simpa using hd) s.resumed
  exact ⟨Nat.le_succ_of_le h.made, hp.queue, hp.registry, hp.ignored⟩

theorem Listed.foldl {f : St → Nat → St} (hf : ∀ s c, Listed s → c ≠ 1 → Listed (f s c)) :
    ∀ (cs : List Nat) (s : St), 1 ∉ cs → Listed s → Listed (cs.foldl f s)
  | [], _, _, h => h
  | c :: cs, s, hcs, h =>
    have hne : c ≠ 1 := fun he => hcs (he ▸ List.mem_cons_self)
    foldl hf cs (f s c) (fun hm => hcs (List.mem_cons_of_mem c hm)) (hf s c h hne)

theorem Listed.cancelOne (h : Listed s) (hc : c ≠ 1) : Listed (cancelOne s c) := by
  unfold Scheduler.cancelOne
  split
  · apply Listed.cancel _ hc
    exact h.setCo (h.ignored c)
  · rename_i hs
    exact h.setCo fun _ => by simpa using hs

theorem Listed.cancelQueued (h : Listed s) (x : Choice) : Listed (cancelQueued s x) := by
  have hall := Listed.foldl (fun _ _ h hc => h.cancelOne hc) s.registry { s with context := true } h.registry
    (h.of_eq rfl)
  exact hall.of_eq rfl

theorem Listed.startShutdown (h : Listed s) (x : Choice) : Listed (startShutdown s x) := by
  unfold Scheduler.startShutdown
  split
  · exact h
  dsimp only
  generalize hu : ({ s with shutdown := true, exit := _, exception := [] } : St) = u
  have hsu : Listed u := by
    subst hu
    exact h.of_eq rfl
  split
  · exact hsu.cancelQueued x
  · exact (hsu.cancelQueued x).of_eq rfl

theorem Listed.handle (h : Listed s) (x : Choice) : Listed (handle s x) := by
  unfold Scheduler.handle
  split
  · exact h
  · apply Listed.startShutdown
    exact h.of_eq rfl

theorem Listed.finallyShutdown (h : Listed s) (x : Choice) : Listed (finallyShutdown s x) := by
  unfold Scheduler.finallyShutdown
  apply Listed.cancelQueued
  split <;> exact h.of_eq rfl

theorem Listed.cancelAll (h : Listed s) (force : Bool) (x : Choice) : Listed (cancelAll s force x) := by
  have hone : ∀ s c, Listed s → c ≠ 1 → Listed (cancelDeadlocked force s c) := by
    intro s c h hc
    unfold cancelDeadlocked
    split
    · apply Listed.cancel _ hc
      exact h.setCo (h.ignored c)
    · exact h.cancel hc false
  unfold Scheduler.cancelAll
  generalize hcs : (if s.exception ≠ [] then _ else _ : List Nat) = cs
  have hsub : 1 ∉ cs := by grind [h.registry]
  exact (Listed.foldl hone cs { s with context := true } hsub (h.of_eq rfl)).of_eq rfl

theorem Listed.act (h : Listed s) {o : Op} (ha : act s o = some t) : Listed t := by
  cases o with
  | resume c e => grind [h.resume, resume, act]
  | cancel c safely => grind [h.cancel, cancel, act]
  | enqueue c => grind [h.enqueue, enqueue, act]
  | create =>
    cases ha
    exact ⟨Nat.le_succ_of_le h.made, h.queue, h.registry, h.ignored⟩
  | spawn front =>
    cases ha
    exact h.spawn front
  | shutdown x => grind [h.startShutdown, startShutdown, act]
  | microtask | startEvent | stopEvent | throw e =>
    cases ha
    exact h.of_eq rfl

end Listed

/-! ## Ownership -/

structure Owned (s : St) : Prop where
  listed : Listed s
  owner : ∀ c f, c ≠ 1 → ((s.co c).fiber = some f ↔ (s.stack f).owner = some c)
  named : ∀ f, (s.stack f).owner ≠ some 1
  one : (s.co 1).fiber = some 1
  scheduler : (s.stack 1).free = true
  alive : ∀ c, c ≠ 1 → (s.co c).started = true → (s.co c).finished = false → (s.co c).fiber.isSome = true
  unstarted : ∀ c, c ≠ 1 → (s.co c).started = false → (s.co c).fiber = none
  fits : (s.stack s.run).Fits s.co
  nodup : s.pool.Nodup
  pool : ∀ f, f ∈ s.pool ↔ (s.stack f).pooled = true
  fresh : ∀ f, s.fibers ≤ f → s.stack f = .fresh
  run : s.run < s.fibers
  two : 2 ≤ s.fibers
  given : ∀ e ∈ s.given, e.owns = true

section Owned

variable {s t : St} {c d f g : Nat} {h : Host} {l : Loop} {x : Choice}

theorem Owned.data (ho : Owned s) (hl : Listed t) (hc : SameFibers s t) : Owned t where
  listed := hl
  owner c f := by rw [hc.fiber, hc.stack]; exact ho.owner c f
  named f := by rw [hc.stack]; exact ho.named f
  one := (hc.fiber 1).trans ho.one
  scheduler := by rw [hc.stack]; exact ho.scheduler
  alive c := by rw [hc.started, hc.finished, hc.fiber]; exact ho.alive c
  unstarted c := by rw [hc.started, hc.fiber]; exact ho.unstarted c
  fits := by grind [hc.stack, hc.run, ho.fits.congr, hc.started, hc.finished, hc.fiber]
  nodup := hc.pool ▸ ho.nodup
  pool f := by rw [hc.pool, hc.stack]; exact ho.pool f
  fresh f := by rw [hc.fibers, hc.stack]; exact ho.fresh f
  run := by rw [hc.run, hc.fibers]; exact ho.run
  two := hc.fibers ▸ ho.two
  given := hc.given ▸ ho.given

/-- Everything but the counters, the exceptions and the current coroutine is the same. -/
theorem Owned.of_eq (ho : Owned s) (hl : Listed t) (he : t.lines = s.lines) : Owned t := ho.data hl (.of_eq he)

/-- A fiber goes to another point with the same owner; control may go to another fiber. -/
theorem Owned.restack (ho : Owned s) (hl : Listed t) (z : Stack) (hstack : t.stack = update s.stack f z)
    (hco : ∀ c, (t.co c).started = (s.co c).started ∧ (t.co c).finished = (s.co c).finished ∧
      (t.co c).fiber = (s.co c).fiber)
    (hpool : t.pool = s.pool) (hfibers : t.fibers = s.fibers) (hgiven : t.given = s.given)
    (hf : f < s.fibers) (hrun : t.run < s.fibers)
    (howner : z.owner = (s.stack f).owner) (hpooled : z.pooled = (s.stack f).pooled) (hfree : f = 1 → z.free = true)
    (hfits : (t.stack t.run).Fits s.co) : Owned t := by
  have hall : ∀ g, (t.stack g).owner = (s.stack g).owner ∧ (t.stack g).pooled = (s.stack g).pooled := by
    intro g
    rw [hstack]
    by_cases hg : g = f
    · subst hg
      simpa using ⟨howner, hpooled⟩
    · simp [update_of_ne hg]
  refine ⟨hl, fun c g hc => ?_, fun g => ?_, (hco 1).2.2.trans ho.one, ?_, fun c => ?_, fun c => ?_, ?_, hpool ▸ ho.nodup, fun g => ?_,
    fun g hg => ?_, hfibers ▸ hrun, hfibers ▸ ho.two, hgiven ▸ ho.given⟩
  · rw [(hco c).2.2, (hall g).1]
    exact ho.owner c g hc
  · rw [(hall g).1]
    exact ho.named g
  · by_cases h1 : f = 1
    · rw [hstack, h1]
      simpa using hfree h1
    · rw [hstack, update_of_ne (Ne.symm h1)]
      exact ho.scheduler
  · rw [(hco c).1, (hco c).2.1, (hco c).2.2]
    exact ho.alive c
  · rw [(hco c).1, (hco c).2.2]
    exact ho.unstarted c
  · grind [hfits.congr]
  · rw [hpool, (hall g).2]
    exact ho.pool g
  · rw [hfibers] at hg
    rw [hstack, update_of_ne (Nat.ne_of_gt (Nat.lt_of_lt_of_le hf hg))]
    exact ho.fresh g hg

/-- The fiber that has control goes to another point. -/
theorem Owned.setTop (ho : Owned s) (howner : z.owner = (s.stack s.run).owner)
    (hpooled : z.pooled = (s.stack s.run).pooled) (hfree : s.run = 1 → z.free = true)
    (hfits : z.Fits s.co) : Owned (s.setStack s.run z) := by
  refine ho.restack (ho.listed.of_eq rfl) z rfl (fun _ => ⟨rfl, rfl, rfl⟩) rfl rfl rfl ho.run ho.run howner
    hpooled hfree ?_
  simpa using hfits

theorem Owned.not_scheduler (ho : Owned s) (hf : (s.stack f).free = false) : f ≠ 1 := by
  rintro rfl
  rw [ho.scheduler] at hf
  cases hf

theorem Owned.lt (ho : Owned s) (hf : s.stack f ≠ .fresh) : f < s.fibers := by
  refine Nat.lt_of_not_le fun hle => hf (ho.fresh f hle)

def Host.owner : Host → Option Nat
  | .loop _ => none
  | .suspend c _ _ => some c

/-- The fiber that has control is in the tick or loop `h`, outside of the pool. -/
def At (s : St) (h : Host) : Prop := (s.stack s.run).owner = h.owner ∧ (s.stack s.run).pooled = false

theorem At.same (ha : At s h) (hc : SameFibers s t) : At t h := by
  unfold At
  rw [hc.stack, hc.run]
  exact ha

theorem At.of_eq (ha : At s h) (he : (t.stack, t.run) = (s.stack, s.run)) : At t h := by
  simp only [Prod.mk.injEq] at he
  obtain ⟨hstack, hrun⟩ := he
  unfold At
  rw [hstack, hrun]
  exact ha

theorem Host.owner_host (h : Host) (w : Work) : (Stack.host h w).owner = h.owner := by
  cases h <;> rfl

variable {w : Work}

theorem Host.pooled_host (h : Host) (hw : w ≠ .pooled ∧ w ≠ .idle) : (Stack.host h w).pooled = false := by
  cases h with
  | loop l => exact Stack.free_pooled (decide_eq_true hw)
  | suspend c saved l => rfl

theorem At.of_stack (hs : s.stack s.run = .host h w) (hw : w ≠ .pooled ∧ w ≠ .idle) : At s h :=
  ⟨(congrArg Stack.owner hs).trans (h.owner_host w), (congrArg Stack.pooled hs).trans (h.pooled_host hw)⟩

theorem Owned.setHost (ho : Owned s) (ha : At s h) (hw : w ≠ .pooled ∧ w ≠ .idle)
    (hfits : (Stack.host h w).Fits s.co) :
    Owned (s.setStack s.run (.host h w)) := by
  refine ho.setTop ((h.owner_host w).trans ha.1.symm) ((h.pooled_host hw).trans ha.2.symm) (fun h1 => ?_) hfits
  have hnone := ha.1
  rw [h1, Stack.free_owner ho.scheduler] at hnone
  cases h with
  | loop l => exact decide_eq_true hw
  | suspend c saved l => cases hnone

/-- Control goes to another fiber. -/
theorem Owned.moveTo (ho : Owned s) (hg : g < s.fibers) (hfits : (s.stack g).Fits s.co) (e : Option Nat) :
    Owned { s with run := g, current := e } :=
  ⟨ho.listed.of_eq rfl, ho.owner, ho.named, ho.one, ho.scheduler, ho.alive, ho.unstarted, hfits, ho.nodup, ho.pool,
    ho.fresh, hg, ho.two, ho.given⟩

theorem Owned.collect (ho : Owned s) (ha : At s h) (saved : List Nat) : Owned (collect s s.run h saved) := by
  have hset := ho.setHost ha (w := .final (s.exception ++ saved) .loop) (by simp) trivial
  exact hset.of_eq (hset.listed.of_eq rfl) rfl

theorem Owned.toScheduler (ho : Owned s) : Owned (toScheduler s) := by
  unfold Scheduler.toScheduler
  split
  · rename_i hs
    have hmove := ho.moveTo (g := 1) ho.two (by rw [hs]; trivial) (some 1)
    refine hmove.setHost ?_ (by simp) trivial
    exact ⟨congrArg Stack.owner hs, congrArg Stack.pooled hs⟩
  · rename_i l hs
    have hmove := ho.moveTo (g := 1) ho.two (by rw [hs]; trivial) (some 1)
    exact hmove.setHost (At.of_stack hs (by simp)) (by simp) trivial
  · rename_i l saved hs
    have hmove := ho.moveTo (g := 1) ho.two (by rw [hs]; trivial) (some 1)
    exact hmove.collect (At.of_stack hs (by simp)) saved
  · exact ho

theorem Owned.wake (ho : Owned s) {saved : List Nat} {l : Option Loop} (ha : At s (.suspend c saved l)) :
    Owned (wake s c saved l x) := by
  have hone : s.run ≠ 1 := by
    intro h1
    have hc := ha.1
    rw [h1, Stack.free_owner ho.scheduler] at hc
    cases hc
  have hcode : ∀ u : St, Owned u → u.stack = s.stack → u.run = s.run → Owned { u.setStack s.run (.code c l) with
      current := some c, exception := x.error ++ s.exception ++ saved } := by
    intro u hu hstack hrun
    rw [← hrun]
    have hau : At u (.suspend c saved l) := ha.of_eq (by rw [hstack, hrun])
    have hset := hu.setTop (z := .code c l) hau.1.symm hau.2.symm (fun h1 => absurd (hrun ▸ h1) hone) trivial
    exact hset.of_eq (hset.listed.of_eq rfl) rfl
  unfold Scheduler.wake
  split
  · exact hcode _ (ho.data (ho.listed.setCo fun hy => by cases hy) (SameControl.setStatus s c .result).toSameFibers) rfl rfl
  · exact hcode s ho rfl rfl

/-- Control comes to a fiber that somebody owns: it goes on where it has switched away. -/
theorem Owned.arrive (ho : Owned s) (hg : (s.stack g).owner = some d) : Owned (arrive s g x) := by
  have hlt : g < s.fibers := ho.lt fun he => by rw [he] at hg; cases hg
  unfold Scheduler.arrive
  split
  · rename_i hs _
    rw [hs] at hg
    cases hg
  · rename_i c saved l hs
    exact (ho.moveTo hlt (by rw [hs]; trivial) s.current).wake (At.of_stack hs (by simp))
  · rename_i c saved l hs
    apply Owned.toScheduler
    have hmove := ho.moveTo hlt (by rw [hs]; trivial) s.current
    exact hmove.setHost (At.of_stack hs (by simp)) (by simp) trivial
  · rename_i h saved hs
    have hmove := ho.moveTo hlt (by rw [hs]; trivial) s.current
    exact hmove.collect (At.of_stack hs (by simp)) saved
  · rename_i hs _
    rw [hs] at hg
    cases hg
  · rename_i hs _
    rw [hs] at hg
    cases hg
  · exact ho

/-- A coroutine without a fiber begins on one that nobody owns. -/
theorem Owned.start (ho : Owned s) (hl : Listed t) (hd : d ≠ 1) (hnone : (s.co d).fiber = none)
    (hfree : (s.stack g).owner = none) (hg : g ≠ 1) {l : Option Loop}
    (hstack : t.stack = update s.stack g (.code d l)) (hrun : t.run = g)
    (hstarted : (t.co d).started = true) (hfiber : (t.co d).fiber = some g) (hother : ∀ c, c ≠ d → t.co c = s.co c)
    (hnodup : t.pool.Nodup) (hpool : ∀ f, f ∈ t.pool ↔ f ∈ s.pool ∧ f ≠ g) (hlt : g < t.fibers)
    (hfibers : s.fibers ≤ t.fibers) (hgiven : ∀ e ∈ t.given, e.owns = true) : Owned t := by
  have hself : (t.stack g).owner = some d := by
    rw [hstack]
    simp [Stack.owner]
  have helse : ∀ f, f ≠ g → t.stack f = s.stack f := fun f hf => by rw [hstack, update_of_ne hf]
  have hone : t.co 1 = s.co 1 := hother 1 (Ne.symm hd)
  refine ⟨hl, fun c f hc => ?_, fun f => ?_, hone ▸ ho.one, ?_, fun c hc => ?_, fun c hc => ?_, ?_, hnodup, fun f => ?_,
    fun f hf => ?_, hrun ▸ hlt, Nat.le_trans ho.two hfibers, hgiven⟩
  · by_cases hcd : c = d
    · grind [ho.owner]
    · grind [ho.owner]
  · grind [ho.named]
  · rw [helse 1 (Ne.symm hg)]
    exact ho.scheduler
  · grind [ho.alive]
  · grind [ho.unstarted]
  · rw [hrun, hstack, update_self]
    trivial
  · rw [hpool f]
    by_cases hf : f = g
    · subst hf
      rw [hstack]
      simp [Stack.pooled]
    · rw [helse f hf, ← ho.pool f]
      simp [hf]
  · grind [ho.fresh]

theorem Owned.switchTo (ho : Owned s) (hd : d ≠ 1) : Owned (switchTo s d x) := by
  unfold Scheduler.switchTo
  split
  · rename_i g hg
    have hcur : Owned { s with current := some d } := ho.of_eq (ho.listed.of_eq rfl) rfl
    exact hcur.arrive ((ho.owner d g hd).1 hg)
  rename_i hnone
  split
  · rename_i g p hp
    have hmem : g ∈ s.pool := hp ▸ List.mem_cons_self
    have hpooled := (ho.pool g).1 hmem
    have hone : g ≠ 1 := by grind [Stack.free_pooled, ho.scheduler]
    have hnd := List.nodup_cons.1 (hp ▸ ho.nodup)
    have hlt : g < s.fibers := ho.lt fun he => by rw [he] at hpooled; cases hpooled
    have hpool : ∀ f, f ∈ p ↔ f ∈ s.pool ∧ f ≠ g := by grind
    -- the fiber waits in the pool at one of two places, and begins the coroutine at both
    obtain ⟨l, hs | hs⟩ := Stack.pooled_cases hpooled
    all_goals
      unfold Scheduler.arrive
      simp only [St.setCo_stack, St.setCo_current, hs]
      refine ho.start (g := g) (l := some l) (ho.listed.shrink rfl (fun _ h => h) (fun _ h => h) fun c hc => ?_) hd hnone
        (Stack.pooled_owner hpooled) hone rfl rfl ?_ ?_ (fun c hc => ?_) hnd.2 hpool hlt (Nat.le_refl _) fun e he => ?_
      · by_cases hcd : c = d
        · subst hcd
          simp [begin] at hc
        · simp only [begin, give, St.setStack_co, St.setCo_co, update_of_ne hcd] at hc ⊢
          exact ho.listed.ignored c hc
      · simp [begin]
      · simp [begin, give]
      · simp [begin, give, update_of_ne hc]
      · -- the fiber has been assigned before the switch
        rcases List.mem_append.1 he with he | he
        · exact ho.given e he
        · rw [List.mem_singleton.1 he]
          simp
  · have hs : s.stack s.fibers = .fresh := ho.fresh s.fibers (Nat.le_refl _)
    have hone : s.fibers ≠ 1 := fun he => absurd ho.two (by omega)
    unfold Scheduler.arrive
    simp only [St.setCo_stack, St.setCo_current, hs]
    refine ho.start (g := s.fibers) (l := some ⟨true, true, false⟩)
      (ho.listed.shrink rfl (fun _ h => h) (fun _ h => h) fun c hc => ?_) hd hnone (by rw [hs]; rfl) hone rfl rfl ?_ ?_
      (fun c hc => ?_) ho.nodup (fun f => ?_) (Nat.lt_succ_self _) (Nat.le_succ _) ho.given
    · by_cases hcd : c = d
      · subst hcd
        simp [begin] at hc
      · simp only [begin, St.setStack_co, St.setCo_co, update_of_ne hcd] at hc ⊢
        exact ho.listed.ignored c hc
    · simp [begin]
    · simp [begin]
    · simp [begin, update_of_ne hc]
    · refine ⟨fun hf => ⟨hf, ?_⟩, fun hf => hf.1⟩
      rintro rfl
      have hp := (ho.pool s.fibers).1 hf
      rw [hs] at hp
      cases hp

/-! ### Ticks and loops -/

/-- A coroutine is marked as finished. -/
theorem Owned.markFinished (ho : Owned s) {y : Co} (hy : y.status = .ignored → y.started = false)
    (hs : y.started = (s.co d).started) (hb : y.fiber = (s.co d).fiber) (hf : y.finished = true) : Owned (s.setCo d y) := by
  have hco : ∀ c, (update s.co d y c).started = (s.co c).started ∧
      (update s.co d y c).fiber = (s.co c).fiber ∧
      ((s.co c).finished = true → (update s.co d y c).finished = true) := by
    intro c
    by_cases hc : c = d
    · subst hc
      simp [hs, hb, hf]
    · simp [update_of_ne hc]
  refine ⟨ho.listed.setCo hy, fun c f hc => ?_, ho.named, (hco 1).2.1.trans ho.one, ho.scheduler, fun c hc hs hfin => ?_, fun c hc hs => ?_, ?_, ho.nodup,
    ho.pool, ho.fresh, ho.run, ho.two, ho.given⟩
  · rw [St.setCo_co, (hco c).2.1]
    exact ho.owner c f hc
  · rw [St.setCo_co, (hco c).1] at hs
    rw [St.setCo_co, (hco c).2.1]
    refine ho.alive c hc hs ?_
    cases hn : (s.co c).finished with
    | false => rfl
    | true => rw [St.setCo_co, (hco c).2.2 hn] at hfin; cases hfin
  · rw [St.setCo_co, (hco c).1] at hs
    rw [St.setCo_co, (hco c).2.1]
    exact ho.unstarted c hc hs
  · exact ho.fits.congr (fun c => (hco c).1) (fun c => (hco c).2.2) fun c => (hco c).2.1

/-- The finalization of an ignored coroutine begins on whatever fiber has control. -/
theorem Owned.ignore (ho : Owned s) (d : Nat) : Owned (ignore s d) := by
  have hm : Owned (s.setCo d { s.co d with status := .result, finished := true }) :=
    ho.markFinished (fun hy => by cases hy) rfl rfl rfl
  exact hm.of_eq (hm.listed.of_eq rfl) rfl

/-- A fiber that is free begins a coroutine that has none. -/
theorem Owned.begin (ho : Owned s) (ha : At s (.loop l)) (h1 : s.run ≠ 1) (hd : d ≠ 1) (hnone : (s.co d).fiber = none)
    (l' : Loop) : Owned (begin { s with current := some d } d l' x) := by
  refine ho.start (g := s.run) (l := some l') (ho.listed.shrink rfl (fun _ h => h) (fun _ h => h) fun c hc => ?_) hd hnone
    ha.1 h1 rfl rfl ?_ ?_ (fun c hc => ?_) ho.nodup (fun f => ?_) ho.run (Nat.le_refl _) ho.given
  · by_cases hcd : c = d
    · subst hcd
      simp [Scheduler.begin] at hc
    · simp only [Scheduler.begin, St.setStack_co, St.setCo_co, update_of_ne hcd] at hc ⊢
      exact ho.listed.ignored c hc
  · simp [Scheduler.begin]
  · simp [Scheduler.begin]
  · simp [Scheduler.begin, update_of_ne hc]
  · refine ⟨fun hf => ⟨hf, ?_⟩, fun hf => hf.1⟩
    rintro rfl
    have hp := (ho.pool s.run).1 hf
    rw [ha.2] at hp
    cases hp

/-- A fiber that is free goes into the pool. -/
theorem Owned.enpool (ho : Owned s) (ha : At s (.loop l)) (h1 : s.run ≠ 1) {l' : Loop}
    (hw : w = .pooled ∨ w = .idle) (e : Option Nat) :
    Owned ({ s with pool := s.pool ++ [s.run], current := e }.setStack s.run (.host (.loop l') w)) := by
  have hnot : s.run ∉ s.pool := by
    intro hm
    have hp := (ho.pool s.run).1 hm
    rw [ha.2] at hp
    cases hp
  have hpooled : (Stack.host (.loop l') w).pooled = true := by
    rcases hw with rfl | rfl <;> rfl
  have howner : ∀ f, (update s.stack s.run (.host (.loop l') w) f).owner = (s.stack f).owner := by
    intro f
    by_cases hf : f = s.run
    · subst hf
      rw [update_self, ha.1]
      rfl
    · rw [update_of_ne hf]
  refine ⟨ho.listed.of_eq rfl, fun c f hc => ?_, fun f => ?_, ho.one, ?_, ho.alive, ho.unstarted, ?_, ?_, fun f => ?_,
    fun f hf => ?_, ho.run, ho.two, ho.given⟩
  · rw [St.setStack_stack, howner f]
    exact ho.owner c f hc
  · rw [St.setStack_stack, howner f]
    exact ho.named f
  · rw [St.setStack_stack, update_of_ne (Ne.symm h1)]
    exact ho.scheduler
  · rw [St.setStack_stack, St.setStack_run, update_self]
    rcases hw with rfl | rfl <;> trivial
  · grind [ho.nodup, At, run, Stack.pooled, St.setStack]
  · rw [St.setStack_stack, St.setStack_pool]
    by_cases hf : f = s.run
    · subst hf
      simp [hpooled]
    · rw [update_of_ne hf, ← ho.pool f]
      simp [hf]
  · have hne : f ≠ s.run := Nat.ne_of_gt (Nat.lt_of_lt_of_le ho.run hf)
    rw [St.setStack_stack, update_of_ne hne]
    exact ho.fresh f hf

theorem Listed.release (hl : Listed s) (d : Nat) (held : List Nat) (x : Choice) : Listed (release s d held x) := by
  have hset : Listed (s.setCo d { s.co d with fiber := none }) := hl.setCo (hl.ignored d)
  exact hset.shrink rfl (fun _ h => h) (fun c hc => List.mem_of_mem_erase hc) hset.ignored

/-- The finalization of a coroutine that has no fiber is over. -/
theorem Owned.releaseNone (ho : Owned s) (hnone : (s.co d).fiber = none) (held : List Nat) (x : Choice) :
    Owned (release s d held x) := by
  have hco : s.co d = { s.co d with fiber := none } := by rw [← hnone]
  have hsame : (Scheduler.release s d held x).co = s.co := by
    simp only [Scheduler.release, St.setCo_co]
    rw [← hco, update_eq_self]
  exact ho.of_eq (ho.listed.release d held x) (by rw [St.lines, hsame]; rfl)

/-- A coroutine gives its fiber back. -/
theorem Owned.giveBack (ho : Owned s) (hl : Listed t) (hc : (s.stack s.run).owner = some c)
    (hstack : t.stack = update s.stack s.run z) (hz : z.owner = none) (hp : z.pooled = false)
    (hfits : z.Fits t.co) (hfiber : (t.co c).fiber = none) (hfin : (t.co c).finished = true)
    (hother : ∀ d, d ≠ c → t.co d = s.co d)
    (he : (t.run, t.pool, t.fibers, t.given) = (s.run, s.pool, s.fibers, s.given)) : Owned t := by
  simp only [Prod.mk.injEq] at he
  obtain ⟨hrun, hpool, hfibers, hgiven⟩ := he
  have hone : s.run ≠ 1 := by
    intro h1
    rw [h1, Stack.free_owner ho.scheduler] at hc
    cases hc
  have hself : t.stack s.run = z := by
    rw [hstack, update_self]
  have helse : ∀ f, f ≠ s.run → t.stack f = s.stack f := fun f hf => by rw [hstack, update_of_ne hf]
  have h1c : 1 ≠ c := fun he => ho.named s.run (he ▸ hc)
  refine ⟨hl, fun d f hd => ?_, fun f => ?_, hother 1 h1c ▸ ho.one, ?_, fun d hd hs hf => ?_, fun d hd hs => ?_, ?_,
    hpool ▸ ho.nodup, fun f => ?_,
    fun f hf => ?_, ?_, hfibers ▸ ho.two, hgiven ▸ ho.given⟩
  · by_cases hdc : d = c
    · subst hdc
      rw [hfiber]
      by_cases hf : f = s.run
      · subst hf
        simp [hself, hz]
      · rw [helse f hf, ← ho.owner d f hd, (ho.owner d s.run hd).2 hc]
        simp [Ne.symm hf]
    · grind [ho.owner]
  · grind [ho.named]
  · rw [helse 1 (Ne.symm hone)]
    exact ho.scheduler
  · grind [ho.alive]
  · grind [ho.unstarted]
  · rw [hrun, hself]
    exact hfits
  · rw [hpool]
    by_cases hf : f = s.run
    · subst hf
      rw [hself, hp, ho.pool s.run]
      cases hz' : s.stack s.run <;> rw [hz'] at hc <;> first | rfl | cases hc | skip
      rename_i k w
      cases k with
      | loop l => cases hc
      | suspend c saved l => rfl
    · rw [helse f hf]
      exact ho.pool f
  · grind [ho.run, ho.fresh]
  · rw [hrun, hfibers]
    exact ho.run

/-- The scheduler ends, and with it the fibers in the pool. -/
theorem Owned.cleanPool (ho : Owned s) (hs : s.stack s.run = .host (.loop l) w)
    (hw : w ≠ .pooled ∧ w ≠ .idle) {w' : Work} (hw' : w' ≠ .pooled ∧ w' ≠ .idle)
    (hfits : (Stack.host (.loop l) w').Fits s.co) :
    Owned ({ s with context := true, pool := [], stack := fun f => if f ∈ s.pool then .fresh else s.stack f }.setStack
      s.run (.host (.loop l) w')) := by
  have hnot : s.run ∉ s.pool := by grind [Host.pooled_host, ho.pool]
  have howner : ∀ f, (update (fun f => if f ∈ s.pool then .fresh else s.stack f) s.run (.host (.loop l) w') f).owner
      = (s.stack f).owner := by
    intro f
    by_cases hf : f = s.run
    · subst hf
      rw [update_self, hs]
      rfl
    · rw [update_of_ne hf]
      split
      · rename_i hm
        rw [Stack.pooled_owner ((ho.pool f).1 hm)]
        rfl
      · rfl
  refine ⟨ho.listed.of_eq rfl, fun c f hc => ?_, fun f => ?_, ho.one, ?_, ho.alive, ho.unstarted, ?_, List.nodup_nil,
    fun f => ?_, fun f hf => ?_, ho.run, ho.two, ho.given⟩
  · rw [St.setStack_stack, howner f]
    exact ho.owner c f hc
  · rw [St.setStack_stack, howner f]
    exact ho.named f
  · rw [St.setStack_stack]
    by_cases h1 : 1 = s.run
    · rw [← h1, update_self]
      exact decide_eq_true hw'
    · rw [update_of_ne h1]
      dsimp only
      split
      · rfl
      · exact ho.scheduler
  · rw [St.setStack_stack, St.setStack_run, update_self]
    exact hfits
  · rw [St.setStack_stack]
    refine ⟨fun hm => absurd hm List.not_mem_nil, fun hp => ?_⟩
    by_cases hf : f = s.run
    · subst hf
      rw [update_self, Host.pooled_host _ hw'] at hp
      cases hp
    · rw [update_of_ne hf] at hp
      dsimp only at hp
      split at hp
      · cases hp
      · rename_i hm
        exact absurd ((ho.pool f).2 hp) hm
  · have hne : f ≠ s.run := Nat.ne_of_gt (Nat.lt_of_lt_of_le ho.run hf)
    rw [St.setStack_stack, update_of_ne hne]
    dsimp only
    split
    · rfl
    · exact ho.fresh f hf

theorem Owned.finishScheduler (ho : Owned s) (ha : At s (.loop l)) (e : List Nat) :
    Owned (finishScheduler (s.setStack s.run .fresh) e) := by
  have hfresh : Owned (s.setStack s.run .fresh) := ho.setTop ha.1.symm ha.2.symm (fun _ => rfl) trivial
  have hf := finishScheduler_frame (s.setStack s.run .fresh) e
  exact hfresh.of_eq (hfresh.listed.of_eq (by rw [hf.made, hf.queue, hf.registry, hf.co]))
    (by rw [St.lines, hf.co, hf.stack, hf.run, hf.pool, hf.fibers, hf.given]; rfl)

theorem Owned.setStatus (ho : Owned s) {st : Status} (hst : st ≠ .ignored) (c : Nat) : Owned (s.setStatus c st) :=
  ho.data (ho.listed.setCo fun hy => absurd hy hst) (SameControl.setStatus s c st).toSameFibers

/-- The code of the coroutine goes on. -/
theorem Owned.setCode (ho : Owned s) {l : Option Loop} (hc : (s.stack s.run).owner = some c)
    (hp : (s.stack s.run).pooled = false) : Owned (s.setStack s.run (.code c l)) := by
  refine ho.setTop hc.symm hp.symm (fun h1 => ?_) trivial
  rw [h1, Stack.free_owner ho.scheduler] at hc
  cases hc

variable {h' : Host} {m : Way}

/-! ### Ticks and loops -/

theorem Pre.listed (hl : Listed s) (hp : Pre s x h w h' m t) : Listed t := by
  induction hp with
  | settled | waits | task | taskDone | channels | drain | final | drains => exact hl.of_eq rfl
  | unstarted =>
    have hoff : Listed { s with context := false } := hl.of_eq rfl
    exact hoff.setCo fun hy => by cases hy
  | guarded => exact hl.finallyShutdown x
  | @beat h hg =>
    cases h with
    | suspend c saved k => exact (hl.handle x).of_eq rfl
    | loop l => exact hl.handle x
  | polls | deadlock | again => exact hl.handle x
  | quiet | top => exact (hl.handle x).of_eq rfl
  | @reactor h hg =>
    cases h with
    | suspend c saved k => exact (hl.handle x).of_eq rfl
    | loop l =>
      have hpr : Listed (processResumed s x) := hl.of_eq rfl
      exact (hpr.handle x).of_eq rfl
  | report _ hu =>
    subst hu
    have hr : Listed (reportDeadlock (processResumed s x) x) := hl.of_eq rfl
    exact hr.cancelAll true x
  | destroy => exact hl.setCo fun hy => by cases hy
  | @placed _ _ d held _ aside hw hu =>
    subst hu
    exact (hl.release d held x).of_eq rfl
  | merge =>
    unfold finalMerge
    split <;> exact hl.of_eq rfl
  | cancelled _ _ ih => exact ih.cancelAll false x
  | closes _ ih | lastDrain _ _ ih | nobody _ _ ih | leaves _ ih | pools _ ih | resumed _ _ ih => exact ih
  | pop _ hq ih | popFinal _ hq ih =>
    exact ih.shrink rfl (fun e he => hq ▸ List.mem_cons_of_mem _ he) (fun _ he => he) ih.ignored
  | empty _ ih => exact ih.of_eq rfl

/-- Where a tick or loop may go on. -/
def Way.Fits (h : Host) (s : St) : Way → Prop
  | .point w => (w ≠ .pooled ∧ w ≠ .idle) ∧ (Stack.host h w).Fits s.co
  | .entry d _ => d ≠ 1
  | _ => True

theorem place_fits (h : Host) (aside : Option (List Nat)) (d : Nat) (held : List Nat) (late : Bool) (co : Nat → Co) :
    (Work.place aside d held late ≠ .pooled ∧ Work.place aside d held late ≠ .idle) ∧
      ((Stack.host h (.place aside d held late)).Fits co ↔ d ≠ 1 ∧ (co d).started = false) := by
  cases aside <;> exact ⟨⟨nofun, nofun⟩, Iff.rfl⟩

theorem Pre.fits (ho : Owned s) (hs : s.stack s.run = .host h w)
    (hp : Pre s x h w h' m t) : (w ≠ .pooled ∧ w ≠ .idle) ∧ m.Fits h' t := by
  have hfits := ho.fits
  rw [hs] at hfits
  induction hp with
  | guarded hw =>
    refine ⟨⟨?_, ?_⟩, ⟨nofun, nofun⟩, trivial⟩
    · rintro rfl
      cases hw
    · rintro rfl
      cases hw
  | waits | top => exact ⟨⟨nofun, nofun⟩, by cases x.heartbeat <;> exact ⟨⟨nofun, nofun⟩, trivial⟩⟩
  | @task _ w w' hw =>
    unfold Work.task at hw
    split at hw <;> cases hw <;> exact ⟨⟨nofun, nofun⟩, ⟨nofun, nofun⟩, trivial⟩
  | @taskDone _ w w' hw =>
    unfold Work.task at hw
    split at hw <;> cases hw <;> exact ⟨⟨nofun, nofun⟩, ⟨nofun, nofun⟩, trivial⟩
  | @destroy h _ d held aside hw =>
    subst hw
    obtain ⟨hd, hst⟩ := (place_fits h aside d held false s.co).2.1 hfits
    refine ⟨(place_fits h aside d held false s.co).1, (place_fits h aside d held true s.co).1, ?_⟩
    exact (place_fits h aside d held true _).2.2 ⟨hd, by simpa using hst⟩
  | @placed h _ d held _ aside hw hu =>
    subst hw
    refine ⟨(place_fits h aside d held true s.co).1, ?_⟩
    cases aside with
    | some saved => trivial
    | none =>
      cases h with
      | loop l => exact ⟨⟨nofun, nofun⟩, trivial⟩
      | suspend c saved l =>
        unfold Host.behind
        dsimp only
        split <;> trivial
  | cancelled _ _ ih | leaves _ ih | pools _ ih | resumed _ _ ih => exact ⟨(ih hs hfits).1, trivial⟩
  | closes _ ih | lastDrain _ _ ih | nobody _ _ ih | empty _ ih => exact ⟨(ih hs hfits).1, ⟨nofun, nofun⟩, trivial⟩
  | pop hp hq ih | popFinal hp hq ih =>
    refine ⟨(ih hs hfits).1, ?_⟩
    rintro rfl
    exact (hp.listed ho.listed).queue (hq ▸ List.mem_cons_self)
  | beat | polls | drains => exact ⟨⟨nofun, nofun⟩, ⟨nofun, nofun⟩, trivial⟩
  | _ => exact ⟨⟨nofun, nofun⟩, trivial⟩

theorem At.onLoop (ha : At s h) (f : Loop → Loop) : At s (h.onLoop f) := by
  cases h <;> exact ha

theorem Owned.placed (ho : Owned s) (hs : s.stack s.run = .host h w) (aside : Option (List Nat)) (d : Nat)
    (held : List Nat) (hw : w = .place aside d held true) : (s.co d).fiber = none := by
  have hfits := ho.fits
  rw [hs, hw, (place_fits h aside d held true s.co).2] at hfits
  exact ho.unstarted d hfits.1 hfits.2

/-- Before control changes. -/
theorem Pre.owned (ho : Owned s) (hs : s.stack s.run = .host h w)
    (hp : Pre s x h w h' m t) : Owned t ∧ At t h' ∧ m.Fits h' t := by
  obtain ⟨hw, hm⟩ := hp.fits ho hs
  have hsame := hp.same (ho.placed hs)
  obtain ⟨f, rfl⟩ := hp.host
  exact ⟨ho.data (hp.listed ho.listed) hsame, ((At.of_stack hs hw).same hsame).onLoop f, hm⟩

theorem Owned.exitFiber (ho : Owned s) (ha : At s (.loop l)) : Owned (exitFiber s l) := by
  unfold Scheduler.exitFiber
  split
  · rename_i h1
    rw [← h1]
    exact ho.setHost ha (by simp) trivial
  · rename_i h1
    apply Owned.toScheduler
    exact ho.setTop ha.1.symm ha.2.symm (fun he => absurd he h1) trivial

/-- Every change of control keeps the fibers apart. -/
theorem Out.owned (ho : Owned s) (ha : At s h) (hm : m.Fits h s) (hout : Out s x h m t) : Owned t := by
  cases hout with
  | point => exact ho.setHost ha hm.1 hm.2
  | @code c saved e l =>
    have hcode := ho.setCode (l := l) ha.1 ha.2
    exact hcode.of_eq (hcode.listed.of_eq rfl) rfl
  | wake | own => exact ho.wake ha
  | away | again =>
    apply Owned.toScheduler
    exact ho.setHost ha (by simp) trivial
  | top => exact ho.setHost ha (by simp) trivial
  | ends => exact ho.exitFiber ha
  | pools h1 =>
    apply Owned.toScheduler
    exact ho.enpool ha h1 (.inr rfl) s.current
  | collect | collects => exact ho.collect ha _
  | ignored hi =>
    have hst := ho.listed.ignored _ hi
    refine Owned.setHost (s := ignore s _) (ho.ignore _) ha (place_fits h _ _ _ _ s.co).1 ?_
    exact (place_fits h _ _ _ _ _).2.2 ⟨hm, by simpa [ignore] using hst⟩
  | @switched _ d aside hi =>
    apply Owned.switchTo _ hm
    cases aside <;> exact ho.setHost ha (by simp [Work.switched]) trivial
  | begun hi h1 hn => exact ho.begin ha h1 hm hn _
  | mine hg =>
    have howner := (ho.owner _ s.run hm).1 hg
    rw [ha.1] at howner
    cases howner
  | @pooled l d g hi h1 hg hne =>
    refine Owned.arrive (d := d) (ho.enpool ha h1 (.inl rfl) (some _)) ?_
    rw [St.setStack_stack, update_of_ne hne]
    exact (ho.owner _ _ hm).1 hg
  | @ended l d g hi h1 hg hne =>
    refine Owned.arrive (d := d) (ho.setTop (z := .fresh) ha.1.symm ha.2.symm (fun he => absurd he h1) trivial) ?_
    rw [St.setStack_stack, update_of_ne hne]
    exact (ho.owner _ _ hm).1 hg

theorem Owned.turn (ho : Owned s) (hs : s.stack s.run = .host h w) (ht : Turn s x h w t) : Owned t := by
  cases ht with
  | way hp hout =>
    obtain ⟨hu, ha, hm⟩ := hp.owned ho hs
    exact hout.owned hu ha hm
  | drained hh hw =>
    subst hh hw
    exact ho.cleanPool hs (by simp) (by simp) trivial
  | last hh hw =>
    subst hh hw
    exact ho.finishScheduler (At.of_stack hs (by simp)) _

theorem Owned.goFinish (ho : Owned s) {l : Option Loop} {held : List Nat} {late : Bool}
    (hs : s.stack s.run = .finish c l held late) : Owned (goFinish s c l held late x) := by
  have hfits := ho.fits
  rw [hs] at hfits
  obtain ⟨hfin, hmain⟩ := hfits
  unfold Scheduler.goFinish
  split
  · have hst := ho.setStatus (by decide : Status.noStatus ≠ .ignored) c
    refine hst.setTop ?_ ?_ (fun h1 => ?_) ⟨by simpa using hfin, fun hl => by simpa using hmain hl⟩
    · rw [setStatus_stack, setStatus_run, hs]
      cases l <;> rfl
    · rw [setStatus_stack, setStatus_run, hs]
      rfl
    · have hfree := ho.scheduler
      rw [← show s.run = 1 from h1, hs] at hfree
      cases hfree
  cases l with
  | some l =>
    have hl := (ho.listed.release c held x)
    refine ho.giveBack (hl.of_eq rfl) (by rw [hs]; rfl) rfl rfl ?_ ?_ ?_ ?_ (fun d hd => ?_) rfl
    · cases l.begun <;> rfl
    · cases l.begun <;> trivial
    · simp [release]
    · simpa [release] using hfin
    · simp [release, update_of_ne hd]
  | none =>
    apply Owned.toScheduler
    have hr := ho.releaseNone (hmain rfl) held x
    refine Owned.setTop (s := release s c held x) hr ?_ ?_ (fun h1 => ?_) trivial
    · exact (congrArg Stack.owner hs).symm
    · exact (congrArg Stack.pooled hs).symm
    · have hfree := ho.scheduler
      rw [← show s.run = 1 from h1, hs] at hfree
      cases hfree

theorem Owned.suspend (ho : Owned s) {l : Option Loop} (hs : s.stack s.run = .code c l) (bare : Bool) (e : Nat) :
    Owned (suspend s c l bare e) := by
  have hone : s.run ≠ 1 := ho.not_scheduler (by rw [hs]; rfl)
  have henter : ∀ u : St, Owned u → u.stack u.run = .code c l → u.run ≠ 1 →
      Owned (u.setStack u.run (.host (.suspend c s.exception l) .starting)) := fun u hu hcode h1 =>
    hu.setTop (congrArg Stack.owner hcode).symm (congrArg Stack.pooled hcode).symm (fun he => absurd he h1) trivial
  unfold Scheduler.suspend
  split
  · exact ho.of_eq (ho.listed.of_eq rfl) rfl
  split
  · have hset := henter s ho hs hone
    exact hset.of_eq (hset.listed.of_eq rfl) rfl
  split
  · exact ho.setStatus (by decide) c
  · have hset := henter _ (ho.setStatus (by decide : Status.waiting ≠ .ignored) c) hs hone
    exact hset.of_eq (hset.listed.of_eq rfl) rfl

theorem Owned.finish (ho : Owned s) {l : Option Loop} (hs : s.stack s.run = .code c l) : Owned (finish s c l) := by
  have hone : s.run ≠ 1 := ho.not_scheduler (by rw [hs]; rfl)
  unfold Scheduler.finish
  cases l with
  | some l =>
    have hm : Owned (s.setCo c { s.co c with finished := true }) := ho.markFinished (ho.listed.ignored c) rfl rfl rfl
    have hset := hm.setTop (z := .finish c (some l) s.exception false) (congrArg Stack.owner hs).symm
      (congrArg Stack.pooled hs).symm (fun h1 => absurd h1 hone) ⟨by simp, fun he => by cases he⟩
    exact hset.of_eq (hset.listed.of_eq rfl) rfl
  | none =>
    have hl : Listed (s.setCo c { s.co c with finished := true, fiber := none }) := ho.listed.setCo (ho.listed.ignored c)
    refine ho.giveBack (hl.of_eq rfl) (congrArg Stack.owner hs) rfl rfl rfl ?_ ?_ ?_ (fun d hd => ?_) rfl
    · exact ⟨by simp, fun _ => by simp⟩
    · simp
    · simp
    · simp [update_of_ne hd]

theorem Owned.call (ho : Owned s) {l : Option Loop} (hs : s.stack s.run = .code c l) (k : Call) :
    Owned (call s c l k) := by
  have hc : c ≠ 1 := by
    rintro rfl
    exact ho.named s.run (congrArg Stack.owner hs)
  have hone : s.run ≠ 1 := ho.not_scheduler (by rw [hs]; rfl)
  cases k with
  | suspend yield bare e =>
    unfold Scheduler.call
    cases yield with
    | false => exact ho.suspend hs bare e
    | true =>
      have hq := enqueue_control s c
      refine Owned.suspend (ho.data (ho.listed.enqueue hc) hq.toSameFibers) ?_ bare e
      exact (congrArg (enqueue s c).stack hq.run).trans ((congrFun hq.stack _).trans hs)
  | poll =>
    have hset := ho.setTop (z := .poll c l) (congrArg Stack.owner hs).symm (congrArg Stack.pooled hs).symm
      (fun h1 => absurd h1 hone) trivial
    exact hset.of_eq (hset.listed.of_eq rfl) rfl
  | clean => exact ho.setStatus (by decide) c
  | protect on =>
    have hsame : SameControl s (s.setCo c { s.co c with guarded := on }) := .setCo rfl rfl rfl
    exact ho.data (ho.listed.setCo (ho.listed.ignored c)) hsame.toSameFibers
  | catch_ => exact ho.of_eq (ho.listed.of_eq rfl) rfl
  | finish => exact ho.finish hs

/-- **One step.** -/
theorem Owned.step {l : Lbl} (ho : Owned s) (hst : step s l = some t) : Owned t := by
  cases step_cases hst with
  | op hf ha => exact ho.data (ho.listed.act ha) (act_control ha).toSameFibers
  | call hs k => exact ho.call hs k
  | turn hs ht => exact ho.turn hs ht
  | @polled c k x hs =>
    have hleft : Owned (leaveContext s x) := ho.of_eq (ho.listed.of_eq rfl) rfl
    exact hleft.setCode (congrArg Stack.owner hs) (congrArg Stack.pooled hs)
  | finish hs => exact ho.goFinish hs

end Owned

theorem owned_inductive : lts.Inductive Owned where
  init s hs := by
    rw [show s = start from hs]
    refine ⟨⟨Nat.le_refl 2, List.not_mem_nil, by decide, fun c hc => ?_⟩, fun c f hc => ?_, fun f => ?_, rfl, rfl,
      fun c hc hs hf => ?_, fun c hc hs => ?_, trivial, List.nodup_nil, fun f => ?_, fun f hf => ?_, by decide, by decide,
      fun _ he => absurd he List.not_mem_nil⟩
    · grind [start, Co.new]
    · grind [start, Stack.owner, Host.owner, Co.new]
    · grind [start, Stack.owner, Host.owner]
    · grind [start, Co.new]
    · grind [start, Co.new]
    · grind [start, Stack.pooled]
    · grind [start]
  step _ _ _ ho hst := ho.step hst

/-- No coroutine but the scheduler has the fiber of the scheduler. -/
theorem Owned.fiber_inj {s : St} (ho : Owned s) {c d f : Nat} (hc : (s.co c).fiber = some f) (hd : (s.co d).fiber = some f) :
    c = d := by
  have hone : ∀ e, e ≠ 1 → (s.co e).fiber ≠ some 1 := by grind [Stack.free_owner, ho.owner, ho.scheduler]
  by_cases hc1 : c = 1
  · grind [ho.one]
  · grind [ho.one, ho.owner]

theorem Owned.pool_unowned {s : St} (ho : Owned s) {c f : Nat} (hf : f ∈ s.pool) : (s.co c).fiber ≠ some f := by
  intro hc
  have hp := (ho.pool f).1 hf
  by_cases hc1 : c = 1
  · grind [Stack.free_pooled, ho.one, ho.scheduler]
  · grind [Stack.pooled_owner, ho.owner]

end PhpAsync.L2.Scheduler
