import PhpAsync.L2Scheduler.Context
import PhpAsync.L2Scheduler.Line
import PhpAsync.L2Scheduler.Switch

/-!
# The discipline of the queue

A coroutine has at most one entry in the queue, and it has one exactly when the status of
its waker is QUEUED or IGNORED; a coroutine that runs or is finalized has none.

**Hypotheses** (`Orderly`), on the state before the step:
* nobody resumes a coroutine that is to be ignored; outside of the scheduler context nobody
  resumes the coroutine that runs or is finalized while its status is RESULT; and nobody
  enqueues the coroutine that runs or is finalized, also in the scheduler context, but for a
  yield of its own;
* no shutdown is started while a coroutine is finalized in place;
* in the tick of a suspension: its events do not fail to start while it is queued, a
  coroutine finalized in place leaves no exception, no exception meets a shutdown, and the
  cancellations of a deadlock resolution raise nothing;
* no destructor that the end of a coroutine runs suspends (`Unsuspended`).

**Results.**
* `ordered_inductive`: queue, statuses, the current coroutine and the stacks fit together.
* `queue_discipline`: under `Orderly` the queue is as described.
* `ignored_queued_twice`: without it, it is not.
-/
namespace PhpAsync.L2.Scheduler

open PhpAsync.Core
open Function (update update_eq_self update_of_ne)
open PhpAsync.L2.Coroutine (Status)

/-! ## Who runs -/

/-- The coroutine whose code or finalizer is running. -/
def Stack.busy : Stack → Option Nat
  | .code c _ | .poll c _ | .finish c _ _ _ | .host _ (.finalize c _ _) | .host _ (.final _ (.finalize c _ _)) => some c
  | _ => none

/-- `ZEND_ASYNC_CURRENT_COROUTINE` in a tick or loop. -/
def Host.Has (e : Option Nat) : Host → Prop
  | .loop _ => e = none ∨ e = some 1
  | .suspend c _ _ => e = some c

/-- `ZEND_ASYNC_CURRENT_COROUTINE`, and that `finally_shutdown` is called by a loop in a
shutdown only. The main coroutine, which has given its fiber up, has started. -/
def Stack.Has (co : Nat → Co) (e : Option Nat) (shutdown : Bool) : Stack → Prop
  | .code c _ | .poll c _ | .finish c (some _) _ _ => e = some c
  | .host _ (.finalize _ _ _) => True
  | .host h (.final _ (.finalize _ _ _)) => h.owner = none ∧ shutdown = true
  | .host h (.final _ _) => h.owner = none ∧ shutdown = true ∧ h.Has e
  | .host h _ => h.Has e
  | .finish c none _ _ => (co c).started = true
  | .fresh | .ended => True

structure Ordered (s : St) : Prop where
  lined : Lined s none (s.stack s.run).busy
  has : (s.stack s.run).Has s.co s.current s.shutdown
  still : Still s

/-! ## The condition -/

/-- A coroutine is finalized in place. -/
def Stack.placing : Stack → Bool
  | .host _ (.finalize _ _ _) | .host _ (.final _ (.finalize _ _ _)) => true
  | _ => false

def Op.orderly (s : St) : Op → Bool
  | .resume c _ =>
    decide ((s.co c).status ≠ .ignored) &&
      (s.context || decide ((s.stack s.run).busy ≠ some c ∨ (s.co c).status ≠ .result))
  | .enqueue c => decide ((s.stack s.run).busy ≠ some c)
  | .shutdown _ => !(s.stack s.run).placing
  | _ => true

/-- The points of the tick of the suspension of `c`. -/
def Work.orderly (s : St) (c : Nat) (x : Choice) : Work → Bool
  | .starting => decide (s.exception = []) || !(s.co c).status.inQueue
  | .finalize _ held true => decide (s.exception = []) && (!x.rethrown || decide (held = []))
  | .heartbeat | .micro _ => decide (s.exception = []) || !s.shutdown
  | .reactor => (decide (s.exception = []) || !s.shutdown) && (!x.yielded || decide (x.raised = []))
  | .drain => decide (s.queue ≠ []) || decide (s.exception = [] ∧ x.raised = [])
  | _ => true

def Lbl.orderly (s : St) : Lbl → Bool
  | .op o => o.orderly s
  | .call _ => true
  | .go x =>
    match s.stack s.run with
    | .host (.suspend c _ _) w => w.orderly s c x
    | _ => true

/-- See the module doc. -/
def Orderly (s : St) (l : Lbl) : Prop := l.orderly s = true

instance (s : St) (l : Lbl) : Decidable (Orderly s l) := inferInstanceAs (Decidable (_ = _))

section Step

variable {s t u : St} {z : Stack} {h : Host} {w : Work} {l : Loop} {x : Choice} {c d : Nat}

theorem Ordered.of_stack (hz : t.stack t.run = z) (hl : Lined t none z.busy) (hh : z.Has t.co t.current t.shutdown)
    (hs : Still t) : Ordered t := by
  subst hz
  exact ⟨hl, hh, hs⟩

/-- The fiber that has control goes to another point. -/
theorem Still.put (hs : Still s) (hstack : t.stack = update s.stack s.run z) (hrun : t.run = s.run)
    (hsh : t.shutdown = s.shutdown) (hl : Lined t none z.busy) (hh : z.Has t.co t.current t.shutdown) : Ordered t := by
  refine .of_stack (z := z) (by rw [hstack, hrun]; simp) hl hh ⟨fun f hf => ?_, fun h1 => ?_⟩
  · rw [hrun] at hf
    rw [hstack, update_of_ne hf, hsh]
    exact hs.parked f hf
  · rw [hrun] at h1
    rw [hstack, update_of_ne (Ne.symm h1)]
    exact hs.home h1

/-- The fiber that has control goes to another point, where it runs nobody. -/
theorem Still.stay (hs : Still s) (hl : Lined s none none) (hz : z.busy = none) (hh : z.Has s.co s.current s.shutdown) :
    Ordered (s.setStack s.run z) := by
  refine hs.put (z := z) rfl rfl rfl ?_ hh
  rw [hz]
  exact hl.of_eq rfl

theorem Still.stayOn {f : Nat} (hs : Still s) (hf : s.run = f) (hl : Lined s none none) (hz : z.busy = none)
    (hh : z.Has s.co s.current s.shutdown) : Ordered (s.setStack f z) :=
  hf ▸ hs.stay hl hz hh

/-! ## Shutdown and cancellations -/

theorem cancelQueued_shutdown (s : St) (x : Choice) : (cancelQueued s x).shutdown = s.shutdown := by
  have hall : SameRest { s with context := true } (s.registry.foldl cancelOne { s with context := true }) :=
    .foldl cancelOne_rest _ _
  exact hall.shutdown

theorem startShutdown_shutdown (s : St) (x : Choice) : (startShutdown s x).shutdown = true := by
  unfold startShutdown
  split
  · assumption
  dsimp only
  generalize hu : ({ s with shutdown := true, exit := _, exception := [] } : St) = u
  have hsh : (cancelQueued u x).shutdown = true := by
    rw [cancelQueued_shutdown, ← hu]
  split <;> exact hsh

theorem handle_shutdown (hs : s.shutdown = true) (x : Choice) : (handle s x).shutdown = true := by
  unfold handle
  split
  · exact hs
  · exact startShutdown_shutdown _ x

/-- An exception that meets no shutdown starts one, and is put aside. -/
theorem handle_exception (hs : s.shutdown = true → s.exception = []) (x : Choice) : (handle s x).exception = [] := by
  unfold handle
  split
  · assumption
  rename_i he
  unfold startShutdown
  rw [if_neg fun hsh => he (hs hsh)]
  dsimp only
  generalize ({ s with shutdown := true, exit := _, exception := [], seen := _ } : St) = u
  split
  · assumption
  · rfl

theorem finallyShutdown_shutdown (s : St) (x : Choice) : (finallyShutdown s x).shutdown = s.shutdown := by
  unfold finallyShutdown
  rw [cancelQueued_shutdown]
  split <;> rfl

theorem cancelAll_shutdown (s : St) (force : Bool) (x : Choice) : (cancelAll s force x).shutdown = s.shutdown := by
  unfold cancelAll
  generalize (if s.exception ≠ [] then _ else _ : List Nat) = cs
  have hall : SameRest { s with context := true } (cs.foldl (cancelDeadlocked force) { s with context := true }) :=
    .foldl (cancelDeadlocked_rest force) _ _
  exact hall.shutdown

theorem Still.same (hs : Still s) (hc : SameControl s t) (hsh : s.shutdown = true → t.shutdown = true) : Still t :=
  hs.of_eq hc.stack hc.run hsh

/-! ## Changes of control -/

theorem Standing.toScheduler (hp : Standing s) (hl : Lined s none none) : Ordered (toScheduler s) := by
  have hmove : ∀ z : Stack, z.busy = none → z.Has s.co (some 1) s.shutdown →
      Ordered ({ s with current := some 1, run := 1 }.setStack 1 z) := by
    intro z hz hh
    have hs : Still { s with current := some 1, run := 1 } := ⟨fun f _ => hp.parked f, fun h1 => absurd rfl h1⟩
    exact hs.stay (hl.free nofun rfl) hz hh
  have hhome := hp.home
  have hpark := hp.parked 1
  unfold Scheduler.toScheduler
  split
  · exact hmove _ rfl (.inr rfl)
  · exact hmove _ rfl (.inr rfl)
  · rename_i l saved he
    rw [he] at hpark
    have ho := hmove (.host (.loop l) (.final (s.exception ++ saved) .loop)) rfl ⟨rfl, hpark, .inr rfl⟩
    exact ⟨ho.lined.of_eq rfl, ho.has, ho.still.of_eq rfl rfl id⟩
  · rename_i hf ha hl
    cases he : s.stack 1 with
    | host h w =>
      rw [he] at hhome
      cases h with
      | suspend c saved l => cases hhome
      | loop l =>
        cases w with
        | away => exact absurd he (ha l)
        | final saved p =>
          cases p with
          | away => exact absurd he (hl l saved)
          | _ => cases hhome
        | _ => cases hhome
    | fresh => exact absurd he hf
    | _ => rw [he] at hhome; cases hhome

/-- The fiber that has control leaves it to the scheduler. -/
theorem Still.leave (hs : Still s) (hl : Lined s none none) (hz : z.parked s.shutdown = true)
    (hh : s.run = 1 → z.home = true) : Ordered (toScheduler (s.setStack s.run z)) :=
  (hs.standing hz hh).toScheduler (hl.of_eq rfl)

/-- The code of a coroutine goes on or begins. -/
theorem Still.goOn (hs : Still s) (hl : Lined s (some c) none) (hlt : c < s.made) {l : Option Loop}
    (hstack : t.stack = update s.stack s.run (.code c l)) (hrun : t.run = s.run)
    (hcurrent : t.current = some c) (hco : ∀ e, e ≠ c → t.co e = s.co e)
    (hst : (t.co c).status = .noStatus ∨ (t.co c).status = .result)
    (he : (t.made, t.queue, t.registry, t.shutdown) = (s.made, s.queue, s.registry, s.shutdown)) : Ordered t := by
  simp only [Prod.mk.injEq] at he
  obtain ⟨hmade, hqueue, hregistry, hshutdown⟩ := he
  exact hs.put (z := .code c l) hstack hrun hshutdown (hl.settle hlt hco hst (.inl hcurrent) hmade hqueue hregistry) hcurrent

/-- The suspension of a coroutine that has been resumed returns. -/
theorem Still.wake (hs : Still s) (hl : Lined s (some c) none) (hst : (s.co c).status = .queued ∨ (s.co c).status = .result)
    (saved : List Nat) (l : Option Loop) (x : Choice) : Ordered (wake s c saved l x) := by
  have hlt : c < s.made := hl.lt_of_status fun hn => by rw [hn] at hst; rcases hst with hst | hst <;> cases hst
  have hkeep := wake_landed s c saved l x
  refine hs.goOn hl hlt (l := l) ?_ ?_ rfl (fun e he => ?_) (.inr ?_)
    (by rw [hkeep.made, hkeep.queue, hkeep.registry, hkeep.shutdown])
  all_goals unfold Scheduler.wake
  · split <;> rfl
  · split <;> rfl
  · split <;> simp [update_of_ne he]
  · split
    · simp
    · exact hst.resolve_left ‹_›

theorem Executed.ordered (he : Executed s d x t) (hl : Lined s (some d) none) (hd : (s.co d).status = .queued) : Ordered t := by
  have hlt : d < s.made := hl.lt_of_status (by rw [hd]; nofun)
  cases he with
  | @wakes u saved l hu hs hco =>
    have hall : u.co = s.co := funext fun e => if he : e = d then he ▸ hco else hu.co e he
    refine Still.wake ⟨hu.parked, fun _ => hu.home⟩ ?_ (.inl (by rw [hall, hd])) saved l x
    exact hl.free nofun (by rw [hall, hu.made, hu.queue, hu.registry])
  | @begins u hu hs hc l =>
    have hstill : Still u := ⟨hu.parked, fun _ => hu.home⟩
    refine hstill.put (z := .code d (some l)) rfl rfl rfl ?_ hc
    refine hl.settle hlt (fun e he => ?_) (.inl (by simp [begin])) (.inl hc) hu.made hu.queue hu.registry
    simpa [begin, update_of_ne he] using hu.co e he

/-- A coroutine that is to be ignored is finalized in place. -/
theorem Still.ignore (hs : Still s) (hl : Lined s (some d) none) (hd : (s.co d).status = .ignored) (hz : z.busy = some d)
    (hh : z.Has (ignore s d).co (some d) s.shutdown) : Ordered ((ignore s d).setStack s.run z) := by
  have hlt : d < s.made := hl.lt_of_status (by rw [hd]; nofun)
  refine hs.put (z := z) rfl rfl rfl ?_ hh
  rw [hz]
  refine hl.settle hlt (fun e he => ?_) (.inr ?_) (.inl rfl) rfl rfl rfl
  · simp [Scheduler.ignore, update_of_ne he]
  · simp [Scheduler.ignore]

/-! ## Ticks and loops -/

theorem Still.exitFiber (hs : Still s) (hl : Lined s none none) (hh : (Host.loop l).Has s.current) : Ordered (exitFiber s l) := by
  unfold Scheduler.exitFiber
  split
  · rename_i h1
    exact hs.stayOn h1 hl rfl hh
  · exact hs.leave hl rfl fun _ => rfl

theorem cancelAll_exception (s : St) (force : Bool) (x : Choice) : (cancelAll s force x).exception = x.raised ++ s.exception := rfl

/-- The status of an entry that is not to be ignored. -/
theorem queued_of_inQueue {st : Status} (hin : st.inQueue = true) (hi : st ≠ .ignored) : st = .queued := by
  cases st with
  | queued => rfl
  | ignored => exact absurd rfl hi
  | noStatus | waiting | result => cases hin

/-- A coroutine that has no entry counts as one whose entry has been taken out. -/
theorem Lined.out (hl : Lined s none none) (hc : (s.co c).status.inQueue = false) : Lined s (some c) none := by
  refine ⟨hl.nodup, fun e => ?_, hl.fresh, hl.registry, hl.registered, nofun, nofun, nofun⟩
  rw [hl.mem e]
  refine and_congr_right fun he => ⟨fun _ hce => ?_, fun _ => nofun⟩
  rw [← Option.some.inj hce, hc] at he
  cases he

/-- Whose code is on a stack has started. -/
theorem Owned.started_of_owner (ho : Owned s) {f : Nat} (howner : (s.stack f).owner = some c) : (s.co c).started = true := by
  have hc : c ≠ 1 := fun he => ho.named f (he ▸ howner)
  have hfiber := (ho.owner c f hc).2 howner
  cases hs : (s.co c).started with
  | true => rfl
  | false =>
    rw [ho.unstarted c hc hs] at hfiber
    cases hfiber

theorem Owned.not_ignored (ho : Owned s) {f : Nat} (howner : (s.stack f).owner = some c) : (s.co c).status ≠ .ignored := by
  intro hi
  have hs := ho.listed.ignored c hi
  rw [ho.started_of_owner howner] at hs
  cases hs

theorem Host.Has.onLoop {e : Option Nat} (hh : h.Has e) (f : Loop → Loop) : (h.onLoop f).Has e := by
  cases h <;> exact hh

theorem handled_exception (hg : s.shutdown = true → s.exception = []) (x : Choice) (h : Host) :
    (reacted s x h).exception = [] := by
  cases h with
  | suspend c saved k => exact handle_exception hg x
  | loop l => exact handle_exception (s := processResumed s x) hg x

theorem Within.same (hi : Within s h) (hc : SameFibers s t) : Within t h := hi.of_eq (by rw [hc.stack, hc.run])

/-! ## The last part of a shutdown -/

theorem Still.collect (hs : Still s) (hl : Lined s none none) (hsh : s.shutdown = true) (hh : (Host.loop l).Has s.current)
    (saved : List Nat) : Ordered (collect s s.run (.loop l) saved) := by
  have hstay := hs.stay hl (z := .host (.loop l) (.final (s.exception ++ saved) .loop)) rfl ⟨rfl, hsh, hh⟩
  exact ⟨hstay.lined.of_eq rfl, hstay.has, hstay.still.of_eq rfl rfl id⟩

theorem finalMerge_same (s : St) (x : Choice) : (finalMerge s x).made = s.made ∧
    (finalMerge s x).co = s.co ∧ (finalMerge s x).queue = s.queue ∧ (finalMerge s x).registry = s.registry ∧
    (finalMerge s x).shutdown = s.shutdown := by
  unfold finalMerge
  split <;> exact ⟨rfl, rfl, rfl, rfl, rfl⟩

/-! ## Finalization -/

/-- The waker of the coroutine that is finalized is destroyed. -/
theorem Lined.destroy (hl : Lined s none (some d)) : Lined (s.setStatus d .noStatus) none (some d) := by
  have hq : (s.co d).status.inQueue = false := by
    rcases hl.rests d rfl with hr | hr <;> rw [hr] <;> rfl
  refine hl.setCo hq.symm id (fun hle => ⟨rfl, (hl.fresh d hle).2.1⟩) fun _ => ⟨.inl rfl, ?_⟩
  exact hl.held d rfl

/-- A finalization goes on, at another point of the fiber. -/
theorem Still.goOnFinalizing (hs : Still s) (hl : Lined s none (some d)) (hz : z.busy = some d)
    (hh : z.Has (s.setStatus d .noStatus).co s.current s.shutdown) : Ordered ((s.setStatus d .noStatus).setStack s.run z) := by
  refine hs.put (z := z) rfl rfl rfl ?_ hh
  rw [hz]
  exact hl.destroy.of_eq rfl

theorem Lined.released (hl : Lined s none (some d)) (held : List Nat) (x : Choice) (e : Option Nat) :
    Lined { Scheduler.release s d held x with current := e } none none :=
  (hl.release held x).free nofun rfl

/-! ## Steps -/

theorem Orderly.tick {saved : List Nat} {l : Option Loop} (hor : Orderly s (.go x))
    (hs : s.stack s.run = .host (.suspend c saved l) w) : w.orderly s c x = true := by
  unfold Orderly Lbl.orderly at hor
  rw [hs] at hor
  exact hor

/-- What a handling point of a tick may meet. -/
theorem Orderly.handling (hor : Orderly s (.go x)) (hs : s.stack s.run = .host h w) (hw : w.handling h = true)
    (hn : h.owner ≠ none) (hsh : s.shutdown = true) : s.exception = [] := by
  cases h with
  | loop l => exact absurd rfl hn
  | suspend c saved l =>
    have ho := hor.tick hs
    cases w with
    | heartbeat | micro => simpa [Work.orderly, hsh] using ho
    | reactor =>
      simp only [Work.orderly, Bool.and_eq_true, hsh] at ho
      simpa using ho.1
    | _ => cases hw

/-- What a tick or loop has to know before it goes on there. -/
def Way.Fine (x : Choice) (h : Host) (u : St) : Way → Prop
  | .point w => Lined u none (Stack.host h w).busy ∧ (Stack.host h w).Has u.co u.current u.shutdown
  | .code _ => ∀ c, h.owner = some c → Lined u none (some c) ∧ u.current = some c
  | .wake => u.exception = [] ∧
    ∀ c, h.owner = some c → Lined u (some c) none ∧ ((u.co c).status = .queued ∨ (u.co c).status = .result)
  | .past idle => Lined u none none ∧ h.Has u.current ∧ u.exception = [] ∧
    (h.owner ≠ none → idle = true → x.yielded = true → x.raised = [])
  | .out failed => Lined u none none ∧ (h.owner = none → h.Has u.current) ∧ (h.owner ≠ none → failed = false)
  | .pool => Lined u none none
  | .entry d aside => Lined u (some d) none ∧ (u.co d).status.inQueue = true ∧ h.Has u.current ∧
    (aside = none → u.exception = []) ∧ (aside ≠ none → h.owner = none ∧ u.shutdown = true)
  | .next _ | .collect _ => Lined u none none ∧ h.owner = none ∧ u.shutdown = true ∧ h.Has u.current

theorem Pre.fine {h' : Host} {m : Way} (ho : Owned s) (hord : Ordered s) (hor : Orderly s (.go x))
    (hs : s.stack s.run = .host h w) (hp : Pre s x h w h' m u) : m.Fine x h' u := by
  obtain ⟨hl, hh, -⟩ := hord
  rw [hs] at hl hh
  have hcur : (handle s x).current = s.current := (handle_control s x).current
  induction hp with
  | @settled c saved l hr =>
    intro c' hc
    cases hc
    exact ⟨(hl.out (by rw [hr]; rfl)).settle (hl.lt_of_status (by simp [hr])) (fun _ _ => rfl) (.inr hr) (.inl hh)
      rfl rfl rfl, hh⟩
  | @unstarted c saved l hr he =>
    intro c' hc
    cases hc
    have hq : (s.co c).status.inQueue = false := by simpa [Work.orderly, he] using hor.tick hs
    have hstarted := ho.started_of_owner (f := s.run) (c := c) (by rw [hs]; rfl)
    refine ⟨(hl.out hq).settle (hl.lt_of_started hstarted) (fun e hec => ?_) (.inl ?_) (.inl hh) rfl rfl rfl, hh⟩
    · simp [update_of_ne hec]
    · simp
  | waits => cases x.heartbeat <;> exact ⟨hl.of_eq rfl, hh⟩
  | @guarded h w hw he hsh =>
    have hloop : h.owner = none := by
      by_contra hn
      exact he (hor.handling hs hw hn hsh)
    have hb : (Stack.host h w).busy = none ∧ h.Has s.current := by
      unfold Work.handling at hw
      split at hw <;> first | exact ⟨rfl, hh⟩ | cases hw
    refine ⟨Lined.finallyShutdown (hb.1 ▸ hl) x, hloop, (finallyShutdown_shutdown s x).trans hsh, ?_⟩
    rw [(finallyShutdown_control s x).current]
    exact hb.2
  | @beat h hg =>
    cases h with
    | suspend c saved k => exact ⟨(hl.handle x).of_eq rfl, hcur.trans hh⟩
    | loop l => exact ⟨hl.handle x, hcur ▸ hh⟩
  | polls => exact ⟨hl.handle x, hcur ▸ hh.onLoop _⟩
  | quiet hg => exact ⟨(hl.handle x).of_eq rfl, hcur ▸ hh.onLoop _, handle_exception hg x, by simp⟩
  | task hw | taskDone hw =>
    unfold Work.task at hw
    split at hw <;> cases hw <;> exact ⟨hl.of_eq rfl, hh⟩
  | @reactor h hg =>
    have hlr : Lined (reacted s x h) none none := by
      cases h with
      | suspend c saved k => exact (hl.handle x).of_eq rfl
      | loop l =>
        have hlp : Lined (processResumed s x) none none := hl.of_eq rfl
        exact (hlp.handle x).of_eq rfl
    refine ⟨hlr, (reacted_control s x h).current ▸ hh.onLoop _, handled_exception hg x h, fun hn _ hy => ?_⟩
    cases h with
    | loop l => exact absurd rfl hn
    | suspend c saved l =>
      have hor' := hor.tick hs
      simp only [Work.orderly, Bool.and_eq_true, hy] at hor'
      simpa using hor'.2
  | channels | drain => exact ⟨hl.of_eq rfl, fun _ => hh, fun _ => rfl⟩
  | @report h u hq hu =>
    subst hu
    have hr : Lined (reportDeadlock (processResumed s x) x) none none := hl.of_eq rfl
    refine ⟨hr.cancelAll true x, fun _ => ?_, fun hn => ?_⟩
    · rw [(cancelAll_control _ true x).current]
      exact hh
    · cases h with
      | loop l => exact absurd rfl hn
      | suspend c saved l =>
        have hor' := hor.tick hs
        simp only [Work.orderly, hq] at hor'
        simp [cancelAll_exception, reportDeadlock, processResumed] at hor' ⊢
        exact hor'.symm
  | @destroy h _ d held aside hw =>
    subst hw
    cases aside with
    | none => exact ⟨hl.destroy, trivial⟩
    | some saved => exact ⟨hl.destroy, hh⟩
  | @placed h _ d held _ aside hw hu =>
    subst hw hu
    cases aside with
    | some saved =>
      cases h with
      | loop l => exact ⟨Lined.released hl held x none, rfl, hh.2, .inl rfl⟩
      | suspend c saved k => cases hh.1
    | none =>
      have hrel := Lined.released hl held x none
      cases h with
      | loop l => exact ⟨hrel, .inl rfl⟩
      | suspend c saved l =>
        have hquiet : { release s d held x with current := none }.exception = [] := by
          have hor' := hor.tick hs
          simp only [Work.place, Work.orderly, Bool.and_eq_true, Bool.or_eq_true, Bool.not_eq_true',
            decide_eq_true_eq] at hor'
          rcases hor' with ⟨he, hx | hx⟩ <;> simp [release, hx, he]
        rw [Host.behind, if_pos hquiet]
        exact ⟨hrel, fun h => absurd h (Option.some_ne_none _), fun _ => rfl⟩
  | final => exact ⟨hl, hh⟩
  | merge =>
    obtain ⟨hmade, hco, hqueue, hregistry, -⟩ := finalMerge_same s x
    have hc := (finalMerge_control s x).current
    exact ⟨hl.of_eq (by rw [hco, hmade, hqueue, hregistry, hc]), fun _ => hc ▸ hh.2.2, fun _ => rfl⟩
  | top => cases x.heartbeat <;> exact ⟨(hl.handle x).of_eq rfl, hcur ▸ hh⟩
  | deadlock hg => exact ⟨hl.handle x, hcur ▸ hh, handle_exception hg x, fun hn => absurd rfl hn⟩
  | again => exact ⟨hl.handle x, fun _ => hcur ▸ hh, fun hn => absurd rfl hn⟩
  | drains => exact ⟨hl, hh⟩
  | cancelled _ hy ih =>
    obtain ⟨hlu, hhu, heu, hx⟩ := ih hs hl hh
    refine ⟨hlu.cancelAll false x, fun _ => ?_, fun hn => ?_⟩
    · rw [(cancelAll_control _ false x).current]
      exact hhu
    · rw [cancelAll_exception, heu, hx hn rfl hy]
      rfl
  | closes _ ih | lastDrain _ _ ih | nobody _ _ ih =>
    obtain ⟨hlu, hhu, -⟩ := ih hs hl hh
    exact ⟨hlu, hhu⟩
  | leaves _ ih =>
    obtain ⟨hlu, hhu, -⟩ := ih hs hl hh
    exact ⟨hlu, fun _ => hhu, fun _ => rfl⟩
  | pools _ ih => exact (ih hs hl hh).1
  | @resumed _ h' _ u _ _ hr ih =>
    obtain ⟨hlu, hhu, heu, -⟩ := ih hs hl hh
    refine ⟨heu, fun c hc => ?_⟩
    cases h' with
    | loop l => cases hc
    | suspend c' saved k =>
      cases hc
      have hcu : u.current = some c := hhu
      have hr' : (u.co c).status = .result := by simpa [hcu] using hr
      exact ⟨hlu.out (by rw [hr']; rfl), .inr hr'⟩
  | pop _ hq ih =>
    obtain ⟨hlu, hhu, heu, -⟩ := ih hs hl hh
    obtain ⟨hlp, hin⟩ := hlu.pop hq
    exact ⟨hlp, hin, hhu, fun _ => heu, fun hn => absurd rfl hn⟩
  | popFinal _ hq ih =>
    obtain ⟨hlu, hn, hsh, hhu⟩ := ih hs hl hh
    obtain ⟨hlp, hin⟩ := hlu.pop hq
    exact ⟨hlp, hin, hhu, by simp, fun _ => ⟨hn, hsh⟩⟩
  | empty _ ih =>
    obtain ⟨hlu, hn, hsh, hhu⟩ := ih hs hl hh
    exact ⟨hlu.of_eq rfl, hn, hsh, hhu⟩

theorem Pre.shutdown {h' : Host} {m : Way} (hsh : s.shutdown = true) (hp : Pre s x h w h' m u) : u.shutdown = true := by
  induction hp with
  | guarded => exact (finallyShutdown_shutdown s x).trans hsh
  | polls | quiet | top | deadlock | again => exact handle_shutdown hsh x
  | @beat h _ | @reactor h _ =>
    cases h with
    | suspend c saved k => exact handle_shutdown hsh x
    | loop l => exact handle_shutdown (by exact hsh) x
  | report _ hu =>
    subst hu
    exact (cancelAll_shutdown _ true x).trans hsh
  | placed _ _ hu =>
    subst hu
    exact hsh
  | merge => exact (finalMerge_same s x).2.2.2.2.trans hsh
  | cancelled _ _ ih => exact (cancelAll_shutdown _ false x).trans ih
  | closes _ ih | lastDrain _ _ ih | nobody _ _ ih | leaves _ ih | pools _ ih | resumed _ _ ih | pop _ _ ih
  | popFinal _ _ ih | empty _ ih => exact ih
  | _ => exact hsh

theorem Pre.still {h' : Host} {m : Way} (ho : Owned s) (hst : Still s) (hs : s.stack s.run = .host h w)
    (hp : Pre s x h w h' m u) : Still u ∧ Within u h' := by
  have hsame := hp.same (ho.placed hs)
  obtain ⟨f, rfl⟩ := hp.host
  exact ⟨hst.of_eq hsame.stack hsame.run fun hsh => hp.shutdown hsh,
    ((Within.of_stack hs (hp.fits ho hs).1).same hsame).onLoop f⟩

theorem Out.ordered {m : Way} (ho : Owned s) (hs : Still s) (hi : Within s h) (hm : m.Fits h s) (hx : m.Fine x h s)
    (hout : Out s x h m t) : Ordered t := by
  cases m with
  | entry d aside =>
    obtain ⟨hl, hin, hh, -, ha⟩ := hx
    rcases hout.entry_cases hs ho hi hm ha with ⟨hc, ht⟩ | ⟨hdi, rfl⟩ | ⟨hdi, hex⟩
    · cases h with
      | loop l =>
        -- the scheduler itself is never in the queue
        rcases hh with hh | hh <;> rw [hh] at hc
        · cases hc
        · exact absurd (Option.some.inj hc).symm hm
      | suspend c saved k =>
        obtain rfl : c = d := Option.some.inj (Eq.trans (Eq.symm hh) hc)
        rw [ht c saved k rfl]
        exact hs.wake hl (.inl (queued_of_inQueue hin (ho.not_ignored hi.place.1))) saved k x
    · refine hs.ignore hl hdi (by cases aside <;> rfl) ?_
      cases aside with
      | none => trivial
      | some saved => exact ha nofun
    · exact hex.ordered hl (queued_of_inQueue hin hdi)
  | point w =>
    cases hout
    exact hs.put (z := .host h w) rfl rfl rfl (hx.1.of_eq rfl) hx.2
  | code e =>
    cases hout with
    | @code c saved _ l => exact hs.put (z := .code c l) rfl rfl rfl ((hx c rfl).1.of_eq rfl) (hx c rfl).2
  | wake =>
    cases hout with
    | @wake c saved l => exact hs.wake (hx.2 c rfl).1 (hx.2 c rfl).2 saved l x
  | out failed =>
    cases hout with
    | away => exact hs.leave hx.1 rfl fun he => absurd he (hi.run_ne ho nofun)
    | again => cases hx.2.2 nofun
    | top => exact hs.stay hx.1 rfl (hx.2.1 rfl)
    | ends => exact hs.exitFiber hx.1 (hx.2.1 rfl)
  | pool =>
    cases hout with
    | pools hr =>
      have hsp : Still { s with pool := s.pool ++ [s.run] } := hs.of_eq rfl rfl id
      have hl : Lined { s with pool := s.pool ++ [s.run] } none none := Lined.of_eq (s := s) hx rfl
      exact hsp.leave hl rfl fun he => absurd he hr
  | collect saved =>
    cases hout
    cases h with
    | suspend c saved k => cases hx.2.1
    | loop l => exact hs.collect hx.1 hx.2.2.1 hx.2.2.2 saved
  | past | next => cases hout

theorem Turn.ordered (ho : Owned s) (hord : Ordered s) (hor : Orderly s (.go x)) (hs : s.stack s.run = .host h w)
    (ht : Turn s x h w t) : Ordered t := by
  cases ht with
  | way hp hout =>
    obtain ⟨hu, -, hm⟩ := hp.owned ho hs
    obtain ⟨hst, hi⟩ := hp.still ho hord.still hs
    exact hout.ordered hu hst hi hm (hp.fine ho hord hor hs)
  | drained hh hw =>
    subst hh hw
    obtain ⟨hl, hh, hst⟩ := hord
    rw [hs] at hl hh
    have hsd : Still { s with
        context := true
        pool := []
        stack := fun f => if f ∈ s.pool then .fresh else s.stack f } := by
      refine ⟨fun f hf => ?_, fun h1 => ?_⟩
      · dsimp only
        split
        · rfl
        · exact hst.parked f hf
      · dsimp only
        split
        · rfl
        · exact hst.home h1
    exact hsd.stay (hl.of_eq rfl) rfl hh
  | @last l exit b hh hw =>
    subst hh hw
    obtain ⟨hl, -, hst⟩ := hord
    rw [hs] at hl
    have hf := finishScheduler_frame (s.setStack s.run .fresh) exit
    have hsf := hst.standing (z := .fresh) rfl fun _ => rfl
    refine .of_stack (finishScheduler_fresh s exit) ?_ trivial ⟨fun f _ => ?_, fun _ => ?_⟩
    · exact hl.free nofun (by rw [hf.co, hf.made, hf.queue, hf.registry]; rfl)
    · rw [hf.stack, hf.shutdown]
      exact hsf.parked f
    · rw [hf.stack]
      exact hsf.home

theorem Stack.Has.congr {co' : Nat → Co} {b : Bool} (hz : z.Has s.co s.current s.shutdown)
    (hco : ∀ c, (co' c).started = (s.co c).started) (hb : s.shutdown = true → b = true) : z.Has co' s.current b := by
  cases z with
  | host h w =>
    cases w with
    | final saved p =>
      cases p with
      | finalize d held late => exact ⟨hz.1, hb hz.2⟩
      | _ => exact ⟨hz.1, hb hz.2.1, hz.2.2⟩
    | _ => exact hz
  | finish c l held late =>
    cases l with
    | none => exact (hco c).trans hz
    | some l => exact hz
  | code | poll => exact hz
  | fresh | ended => trivial

theorem act_shutdown {o : Op} (ha : act s o = some t) (hsh : s.shutdown = true) : t.shutdown = true := by
  cases o with
  | resume c e =>
    obtain ⟨-, ⟨⟩⟩ := Option.ite_none_right_eq_some.1 ha
    unfold resume
    split
    · exact hsh
    split
    · exact hsh
    split <;> exact hsh
  | cancel c safely =>
    obtain ⟨-, ⟨⟩⟩ := Option.ite_none_right_eq_some.1 ha
    exact (cancel_rest s c safely).shutdown.trans hsh
  | enqueue c =>
    obtain ⟨-, ⟨⟩⟩ := Option.ite_none_right_eq_some.1 ha
    exact (enqueue_rest s c).shutdown.trans hsh
  | shutdown x =>
    obtain ⟨-, ⟨⟩⟩ := Option.ite_none_right_eq_some.1 ha
    exact startShutdown_shutdown s x
  | create | spawn front | microtask | startEvent | stopEvent | throw e =>
    cases ha
    exact hsh

theorem Stack.busy_cases (hb : z.busy = some c) : (∃ l, z = .code c l) ∨ (∃ l, z = .poll c l) ∨
    (∃ l held late, z = .finish c l held late) ∨ z.placing = true := by
  cases z with
  | host h w =>
    cases w with
    | finalize d held late => exact .inr (.inr (.inr rfl))
    | final saved p =>
      cases p with
      | finalize d held late => exact .inr (.inr (.inr rfl))
      | _ => cases hb
    | _ => cases hb
  | code d l =>
    cases hb
    exact .inl ⟨l, rfl⟩
  | poll d l =>
    cases hb
    exact .inr (.inl ⟨l, rfl⟩)
  | finish d l held late =>
    cases hb
    exact .inr (.inr (.inl ⟨l, held, late, rfl⟩))
  | fresh | ended => cases hb

theorem Stack.placing_inContext (hz : z.placing = true) : z.inContext = false := by
  cases z with
  | host h w =>
    cases w with
    | finalize d held late => rfl
    | final saved p =>
      cases p with
      | finalize d held late => rfl
      | _ => cases hz
    | _ => cases hz
  | _ => cases hz

/-- The coroutine that runs, or is finalized on its own fiber, has started. -/
theorem Ordered.busy_started (hord : Ordered s) (ho : Owned s) (hb : (s.stack s.run).busy = some c)
    (hp : (s.stack s.run).placing = false) : (s.co c).started = true := by
  have howner := ho.started_of_owner (f := s.run) (c := c)
  have hh := hord.has
  rcases Stack.busy_cases hb with ⟨l, hz⟩ | ⟨l, hz⟩ | ⟨l, held, late, hz⟩ | hz
  · exact howner (by rw [hz]; rfl)
  · exact howner (by rw [hz]; rfl)
  · cases l with
    | none =>
      rw [hz] at hh
      exact hh
    | some l => exact howner (by rw [hz]; rfl)
  · rw [hp] at hz
    cases hz

/-- Operations of foreign code. -/
theorem Ordered.act (hord : Ordered s) (ho : Owned s) (hon : OnlyInContext s) {o : Op} (hor : Orderly s (.op o))
    (ha : act s o = some t) : Ordered t := by
  obtain ⟨hl, hh, hst⟩ := hord
  have hlined : Lined t none (s.stack s.run).busy := by
    cases o with
    | resume c e =>
      obtain ⟨hc, ⟨⟩⟩ := Option.ite_none_right_eq_some.1 ha
      simp only [Orderly, Lbl.orderly, Op.orderly, Bool.and_eq_true, decide_eq_true_eq, Bool.or_eq_true] at hor
      refine hl.resume hc.2 hor.1 (fun hb => ?_) e
      cases hx : s.context with
      | true =>
        -- only a call of the reactor by the coroutine itself has the context on
        have hp := hon hx
        rcases Stack.busy_cases hb with ⟨l, hz⟩ | ⟨l, hz⟩ | ⟨l, held, late, hz⟩ | hz
        · rw [hz] at hp
          cases hp
        · rw [hz] at hh
          exact .inr ⟨rfl, hh⟩
        · rw [hz] at hp
          cases hp
        · rw [Stack.placing_inContext hz] at hp
          cases hp
      | false => grind [hl.rests]
    | cancel c safely => grind [hl.cancel, cancel, act, OnlyInContext, Orderly]
    | enqueue c =>
      obtain ⟨hc, ⟨⟩⟩ := Option.ite_none_right_eq_some.1 ha
      exact hl.enqueue hc.2 (of_decide_eq_true hor)
    | create =>
      cases ha
      exact hl.create
    | spawn front =>
      cases ha
      exact hl.spawn front
    | shutdown x =>
      obtain ⟨-, ⟨⟩⟩ := Option.ite_none_right_eq_some.1 ha
      refine hl.startShutdown (fun c hb => Ordered.busy_started ⟨hl, hh, hst⟩ ho hb ?_) x
      simpa [Orderly, Lbl.orderly, Op.orderly] using hor
    | microtask | startEvent | stopEvent | throw e =>
      cases ha
      exact hl.of_eq rfl
  have hc := act_control ha
  have hsh := act_shutdown ha
  refine .of_stack (congr hc.stack hc.run) hlined ?_ (hst.same hc hsh)
  rw [hc.current]
  exact hh.congr hc.started hsh

/-! ## Calls -/

theorem Still.suspend (hs : Still s) (hl : Lined s none none) (hx : s.context = false) {l : Option Loop}
    (hst : s.stack s.run = .code c l) (hcur : s.current = some c) (hstarted : (s.co c).started = true) (bare : Bool) (e : Nat) :
    Ordered (suspend s c l bare e) := by
  have hlt := hl.lt_of_started hstarted
  unfold Scheduler.suspend
  rw [if_neg (by simp [hx])]
  split
  · exact hs.put (z := .host (.suspend c s.exception l) .starting) rfl rfl rfl (hl.of_eq rfl) hcur
  rename_i hq
  have hq' : (s.co c).status.inQueue = false := by simpa using hq
  split
  · -- nothing to wait for: the call returns at once
    refine hs.goOn (hl.out hq') hlt (l := l) ?_ rfl hcur (fun d hd => ?_) (.inl ?_) rfl
    · rw [← hst, update_eq_self]
      rfl
    · simp [update_of_ne hd]
    · simp
  · have hwait : Lined (s.setStatus c .waiting) none none :=
      hl.setCo (by rw [hq']; rfl) id (fun hle => absurd hlt (Nat.not_lt.2 hle)) nofun
    exact hs.put (z := .host (.suspend c s.exception l) .starting) rfl rfl rfl (hwait.of_eq rfl) hcur

theorem Ordered.call (hord : Ordered s) (ho : Owned s) (hx : s.context = false) {l : Option Loop}
    (hs : s.stack s.run = .code c l) (k : Call) : Ordered (call s c l k) := by
  obtain ⟨hl, hh, hst⟩ := hord
  rw [hs] at hl hh
  have hstarted : (s.co c).started = true := ho.started_of_owner (f := s.run) (by rw [hs]; rfl)
  have hsame : s.stack = update s.stack s.run (.code c l) := by rw [← hs, update_eq_self]
  cases k with
  | suspend yield bare e =>
    have hfree : Lined s none none := by
      refine hl.free (fun d hd => ?_) rfl
      cases hd
      exact hstarted
    cases yield with
    | false => exact hst.suspend hfree hx hs hh hstarted bare e
    | true =>
      have hq := enqueue_rest s c
      refine (hst.same hq.toSameControl fun h => hq.shutdown.trans h).suspend (hfree.enqueue (hl.known c rfl) nofun)
        (hq.context.trans hx) ?_ (hq.current.trans hh) ((hq.started c).trans hstarted) bare e
      exact (congr hq.stack hq.run).trans hs
  | poll => exact hst.put (z := .poll c l) rfl rfl rfl (hl.of_eq rfl) hh
  | clean => exact hst.put hsame rfl rfl hl.destroy hh
  | protect on => exact hst.put hsame rfl rfl (hl.mark rfl rfl id) hh
  | catch_ => exact hst.put hsame rfl rfl (hl.of_eq rfl) hh
  | finish =>
    cases l with
    | some l =>
      have hmark : Lined (s.setCo c { s.co c with finished := true }) none (some c) := hl.mark rfl rfl fun _ => rfl
      exact hst.put (z := .finish c (some l) s.exception false) rfl rfl rfl (hmark.of_eq rfl) hh
    | none =>
      have hmark : Lined (s.setCo c { s.co c with finished := true, fiber := none }) none (some c) :=
        hl.mark rfl rfl fun _ => rfl
      refine hst.put (z := .finish c none s.exception false) rfl rfl rfl ?_ ?_
      · refine hmark.ended (fun d hd => ?_) rfl
        cases hd
        simp
      · simpa [Stack.Has, Scheduler.call, finish] using hstarted

/-- A coroutine ends. -/
theorem Ordered.goFinish (hord : Ordered s) (ho : Owned s) {l : Option Loop} {held : List Nat} {late : Bool}
    (hs : s.stack s.run = .finish c l held late) : Ordered (goFinish s c l held late x) := by
  obtain ⟨hl, hh, hst⟩ := hord
  rw [hs] at hl hh
  unfold Scheduler.goFinish
  split
  · refine hst.goOnFinalizing hl rfl ?_
    cases l with
    | some l => exact hh
    | none => simpa [Stack.Has] using hh
  have hrel : Lined (release s c held x) none none := hl.release held x
  have hsr : Still (release s c held x) := hst.of_eq rfl rfl id
  cases l with
  | some l =>
    have hcur : (release s c held x).current = none := by
      have hc : s.current = some c := hh
      simp [release, hc]
    refine hsr.stay hrel ?_ ?_
    · cases l.begun <;> rfl
    · cases l.begun <;> exact .inl hcur
  | none =>
    have h1 : s.run ≠ 1 := ho.not_scheduler (by rw [hs]; rfl)
    exact hsr.leave hrel rfl fun he => absurd he h1

theorem Ordered.step {l : Lbl} (hord : Ordered s) (ho : Owned s) (hon : OnlyInContext s) (hor : Orderly s l)
    (hst : step s l = some t) : Ordered t := by
  cases step_cases hst with
  | op hf ha => exact hord.act ho hon hor ha
  | call hs k => exact hord.call ho (hon.off (by rw [hs]; rfl)) hs k
  | turn hs ht => exact ht.ordered ho hord hor hs
  | @polled c l x hs =>
    obtain ⟨hl, hh, hst⟩ := hord
    rw [hs] at hl hh
    exact hst.put (z := .code c l) rfl rfl rfl (hl.of_eq rfl) hh
  | finish hs => exact hord.goFinish ho hs

end Step

theorem start_ordered : Ordered start := by
  have hstatus : ∀ c, (start.co c).status = .noStatus := by
    intro c
    simp only [start]
    split
    · rfl
    split <;> rfl
  refine .of_stack (z := .code 0 none) rfl ⟨List.nodup_nil, fun c => ?_, fun c hc => ⟨hstatus c, ?_, ?_⟩,
    List.nodup_singleton 0, fun c hc hs => ?_, fun c hc => ?_, fun c _ => .inl (hstatus c), fun c hc => .inl hc⟩ rfl
    ⟨fun f hf => ?_, fun _ => rfl⟩
  · rw [hstatus c]
    simp [start, Status.inQueue]
  · grind [start, Co.new]
  · have h2 : 2 ≤ c := hc
    simp only [start, List.mem_singleton]
    omega
  · rw [List.mem_singleton.1 hc] at hs
    cases hs
  · cases hc
    exact Nat.zero_lt_two
  · have hf0 : f ≠ 0 := hf
    simp [start, hf0, Stack.parked]

theorem ordered_inductive : (lts.restrict Orderly).Inductive fun s => Owned s ∧ OnlyInContext s ∧ Ordered s where
  init s hs := by
    refine ⟨owned_inductive.init s hs, only_inductive.init s hs, ?_⟩
    rw [show s = start from hs]
    exact start_ordered
  step s l t h hst := ⟨h.1.step hst.2, h.2.1.step hst.2, h.2.2.step h.1 h.2.1 hst.1 hst.2⟩

/-- **Discipline of the queue.** Under `Orderly` no coroutine has two entries in the queue,
a coroutine has one exactly when the status of its waker is QUEUED or IGNORED, and the
coroutine that runs or is finalized has none. -/
theorem queue_discipline (s : St) (under : Nat → List Stack)
    (hr : (deep.restrict (Unsuspended Orderly)).Reachable (s, under)) :
    s.queue.Nodup ∧ (∀ c, c ∈ s.queue ↔ (s.co c).status.inQueue = true) ∧
      ∀ c, (s.stack s.run).busy = some c → c ∉ s.queue := by
  obtain ⟨-, -, hl, -, -⟩ := ordered_inductive.reachable s ((plain_inductive _).reachable _ hr).1
  have hmem : ∀ c, c ∈ s.queue ↔ (s.co c).status.inQueue = true := fun c => by simpa using hl.mem c
  refine ⟨hl.nodup, hmem, fun c hb hc => ?_⟩
  have hq := (hmem c).1 hc
  rcases hl.rests c hb with hst | hst <;> rw [hst] at hq <;> cases hq

/-- One coroutine is cancelled before its start and one is queued behind it, by the main
coroutine, which runs. -/
theorem queue_discipline_two :
    ∃ s : St, s.queue = [2, 3] ∧ (s.co 2).status = .ignored ∧
      (s.co 3).status = .queued ∧ s.stack s.run = .code 0 none ∧ 0 ∉ s.queue ∧ s.queue.Nodup := by
  obtain ⟨⟨s, under⟩, hr, hq, h2, h3, hs⟩ := LTS.existsG_from (f := deepStep) (G := Unsuspended Orderly)
    (start, fun _ => [])
    ([.op (.spawn false), .op (.cancel 2 false), .op (.spawn false), .op (.cancel 2 false)].map .base)
    (P := fun p => p.1.queue = [2, 3] ∧ (p.1.co 2).status = .ignored ∧ (p.1.co 3).status = .queued ∧
      p.1.stack p.1.run = .code 0 none) (by decide +kernel)
  obtain ⟨hnd, -, hbusy⟩ := queue_discipline s under hr
  exact ⟨s, hq, h2, h3, hs, hbusy 0 (by rw [hs]; rfl), hnd⟩

/-- **Counterexample.** A coroutine that is cancelled before its start and then resumed is
in the queue twice. A coroutine that is finalized in the tick of a suspension leaves an
exception, and the suspended coroutine runs while it is in the queue. The events of a
coroutine that is queued fail to start, and it runs while it is in the queue, without a
status. -/
theorem ignored_queued_twice :
    (∃ s, lts.Reachable s ∧ s.queue = [2, 2]) ∧
    (∃ s, lts.Reachable s ∧ s.stack s.run = .code 0 none ∧ s.queue = [0] ∧ (s.co 0).status = .result) ∧
    ∃ s, lts.Reachable s ∧ s.stack s.run = .code 0 none ∧ s.queue = [0] ∧ (s.co 0).status = .noStatus := by
  refine ⟨?_, ?_, ?_⟩
  · exact LTS.exists_from (f := step) start
      [.op (.spawn false), .op (.cancel 2 false), .op (.resume 2 0)] (by decide +kernel)
  · exact LTS.exists_from (f := step) start
      [.op (.spawn false), .op (.cancel 2 false), .call (.suspend true false 0), .go .quiet, .go .quiet,
        -- in the finalization of the other coroutine
        .op (.throw 7), .go .quiet, .go .quiet] (by decide +kernel)
  · exact LTS.exists_from (f := step) start
      [.call (.suspend true false 0), .op (.throw 7), .go .quiet] (by decide +kernel)

end PhpAsync.L2.Scheduler
