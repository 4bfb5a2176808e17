import Mathlib.Data.List.Nodup
import PhpAsync.L2Scheduler.Model

/-!
# What the functions of the scheduler change

Field lemmas, and one lemma for each function about what it leaves alone: the operations of
foreign code and the cancellations do not touch the fibers (`SameControl`), and a change of
control does not touch the queue, the counters and the scheduler context (`Landed`).
-/
namespace PhpAsync.L2.Scheduler

open PhpAsync.Core Function
open PhpAsync.L2.Coroutine (Status)

/-! ## Fields -/

section Fields

variable (s : St) (c : Nat) (st : Status)

@[simp] theorem setStatus_co :
    (s.setStatus c st).co = update s.co c { s.co c with status := st } := rfl
@[simp] theorem setStatus_queue : (s.setStatus c st).queue = s.queue := rfl
@[simp] theorem setStatus_registry : (s.setStatus c st).registry = s.registry := rfl
@[simp] theorem setStatus_stack : (s.setStatus c st).stack = s.stack := rfl
@[simp] theorem setStatus_run : (s.setStatus c st).run = s.run := rfl

end Fields

/-! ## Cancellations and foreign code -/

/-- Nothing about fibers has changed, nor about who has started and who has finished. -/
structure SameFibers (s t : St) : Prop where
  stack : t.stack = s.stack
  run : t.run = s.run
  pool : t.pool = s.pool
  fibers : t.fibers = s.fibers
  given : t.given = s.given
  started : ∀ c, (t.co c).started = (s.co c).started
  finished : ∀ c, (t.co c).finished = (s.co c).finished
  fiber : ∀ c, (t.co c).fiber = (s.co c).fiber

structure SameControl (s t : St) : Prop extends SameFibers s t where
  current : t.current = s.current
  reports : t.reports = s.reports

/-- The coroutines and the fibers. -/
def St.lines (s : St) := (s.co, s.stack, s.run, s.pool, s.fibers, s.given)

def St.control (s : St) := (s.lines, s.current, s.reports)

section Control

variable {s t u : St} {c : Nat} {x : Choice}

theorem SameFibers.of_eq (he : t.lines = s.lines) : SameFibers s t := by
  simp only [St.lines, Prod.mk.injEq] at he
  obtain ⟨hco, hstack, hrun, hpool, hfibers, hgiven⟩ := he
  exact ⟨hstack, hrun, hpool, hfibers, hgiven, fun _ => by rw [hco], fun _ => by rw [hco], fun _ => by rw [hco]⟩

theorem SameFibers.trans (h : SameFibers s t) (h' : SameFibers t u) : SameFibers s u where
  stack := h'.stack.trans h.stack
  run := h'.run.trans h.run
  pool := h'.pool.trans h.pool
  fibers := h'.fibers.trans h.fibers
  given := h'.given.trans h.given
  started c := (h'.started c).trans (h.started c)
  finished c := (h'.finished c).trans (h.finished c)
  fiber c := (h'.fiber c).trans (h.fiber c)

theorem SameFibers.before (h : SameFibers t u) (he : t.lines = s.lines) : SameFibers s u := (SameFibers.of_eq he).trans h

theorem SameControl.refl (s : St) : SameControl s s := ⟨.of_eq rfl, rfl, rfl⟩

theorem SameControl.trans (h : SameControl s t) (h' : SameControl t u) : SameControl s u :=
  ⟨h.toSameFibers.trans h'.toSameFibers, h'.current.trans h.current, h'.reports.trans h.reports⟩

/-- Only the tables, the counters and the exceptions are other ones. -/
theorem SameControl.of_eq (he : t.control = s.control) : SameControl s t := by
  simp only [St.control, Prod.mk.injEq] at he
  exact ⟨.of_eq he.1, he.2.1, he.2.2⟩

theorem SameControl.before (h : SameControl t u) (he : t.control = s.control) : SameControl s u :=
  (SameControl.of_eq he).trans h

theorem SameControl.setCo {y : Co} (hs : y.started = (s.co c).started) (hf : y.finished = (s.co c).finished)
    (hb : y.fiber = (s.co c).fiber) : SameControl s (s.setCo c y) := by
  refine ⟨⟨rfl, rfl, rfl, rfl, rfl, fun d => ?_, fun d => ?_, fun d => ?_⟩, rfl, rfl⟩ <;>
  · by_cases hd : d = c
    · subst hd
      simp [hs, hf, hb]
    · simp [update_of_ne hd]

theorem SameControl.setStatus (s : St) (c : Nat) (st : Status) : SameControl s (s.setStatus c st) :=
  .setCo rfl rfl rfl

/-- Statuses, the queue, the registry and the list of those who are resumed may be other
ones, and nothing else. -/
structure SameRest (s t : St) : Prop extends SameControl s t where
  made : t.made = s.made
  microtasks : t.microtasks = s.microtasks
  events : t.events = s.events
  context : t.context = s.context
  shutdown : t.shutdown = s.shutdown
  exception : t.exception = s.exception
  exit : t.exit = s.exit
  seen : t.seen = s.seen
  result : t.result = s.result

theorem SameRest.refl (s : St) : SameRest s s := ⟨.refl s, rfl, rfl, rfl, rfl, rfl, rfl, rfl, rfl, rfl⟩

theorem SameRest.trans (h : SameRest s t) (h' : SameRest t u) : SameRest s u :=
  ⟨h.toSameControl.trans h'.toSameControl, h'.made.trans h.made, h'.microtasks.trans h.microtasks,
    h'.events.trans h.events, h'.context.trans h.context, h'.shutdown.trans h.shutdown, h'.exception.trans h.exception,
    h'.exit.trans h.exit, h'.seen.trans h.seen, h'.result.trans h.result⟩

theorem SameRest.setCo {y : Co} (hs : y.started = (s.co c).started) (hf : y.finished = (s.co c).finished)
    (hb : y.fiber = (s.co c).fiber) : SameRest s (s.setCo c y) :=
  ⟨.setCo hs hf hb, rfl, rfl, rfl, rfl, rfl, rfl, rfl, rfl, rfl⟩

theorem SameRest.foldl {f : St → Nat → St} (hf : ∀ s c, SameRest s (f s c)) :
    ∀ (cs : List Nat) (s : St), SameRest s (cs.foldl f s)
  | [], s => .refl s
  | c :: cs, s => (hf s c).trans (foldl hf cs (f s c))

theorem enqueue_rest (s : St) (c : Nat) : SameRest s (enqueue s c) := by
  have hset : SameControl s (s.setStatus c .queued) := .setStatus s c .queued
  unfold enqueue
  split
  · exact .refl s
  · exact ⟨hset.trans (.of_eq rfl), rfl, rfl, rfl, rfl, rfl, rfl, rfl, rfl, rfl⟩

theorem cancel_rest (s : St) (c : Nat) (safely : Bool) : SameRest s (cancel s c safely) := by
  have hmark : SameRest s (s.setCo c { s.co c with cancelled := true }) := .setCo rfl rfl rfl
  unfold cancel
  dsimp only
  split
  · exact .refl s
  split
  · exact hmark
  split
  · exact .refl s
  split
  · exact (hmark.trans (enqueue_rest _ c)).trans (.setCo rfl rfl rfl)
  split
  · exact hmark
  · exact hmark.trans (enqueue_rest _ c)

theorem cancelOne_rest (s : St) (c : Nat) : SameRest s (cancelOne s c) := by
  unfold cancelOne
  split
  · have hclear : SameRest s (s.setCo c { s.co c with guarded := false }) := .setCo rfl rfl rfl
    exact hclear.trans (cancel_rest _ c false)
  · exact .setCo rfl rfl rfl

theorem cancelDeadlocked_rest (force : Bool) (s : St) (c : Nat) : SameRest s (cancelDeadlocked force s c) := by
  unfold cancelDeadlocked
  split
  · have hclear : SameRest s (s.setCo c { s.co c with guarded := false }) := .setCo rfl rfl rfl
    exact hclear.trans (cancel_rest _ c false)
  · exact cancel_rest s c false

theorem enqueue_control (s : St) (c : Nat) : SameControl s (enqueue s c) := (enqueue_rest s c).toSameControl

theorem cancel_control (s : St) (c : Nat) (safely : Bool) : SameControl s (cancel s c safely) :=
  (cancel_rest s c safely).toSameControl

theorem resume_control (s : St) (c e : Nat) : SameControl s (resume s c e) := by
  unfold resume
  split
  · exact .of_eq rfl
  split
  · exact .refl s
  split
  · exact .setStatus s c .result
  · exact (SameControl.setStatus s c .queued).trans (.of_eq rfl)

theorem spawn_control (s : St) (front : Bool) : SameControl s (spawn s front) :=
  (SameControl.setStatus s s.made .queued).trans (.of_eq rfl)

theorem cancelQueued_control (s : St) (x : Choice) : SameControl s (cancelQueued s x) := by
  have hall : SameControl s (s.registry.foldl cancelOne { s with context := true }) :=
    (SameRest.foldl cancelOne_rest _ _).toSameControl.before rfl
  exact hall.trans (.of_eq rfl)

theorem startShutdown_control (s : St) (x : Choice) : SameControl s (startShutdown s x) := by
  unfold startShutdown
  split
  · exact .refl s
  dsimp only
  generalize hu : ({ s with shutdown := true, exit := _, exception := [] } : St) = u
  have hsu : SameControl s u := by
    subst hu
    exact .of_eq rfl
  split
  · exact hsu.trans (cancelQueued_control u x)
  · exact (hsu.trans (cancelQueued_control u x)).trans (.of_eq rfl)

theorem handle_control (s : St) (x : Choice) : SameControl s (handle s x) := by
  unfold handle
  split
  · exact .refl s
  · exact (startShutdown_control _ x).before rfl

theorem finallyShutdown_control (s : St) (x : Choice) : SameControl s (finallyShutdown s x) := by
  unfold finallyShutdown
  dsimp only
  split
  · exact (cancelQueued_control _ x).before rfl
  · exact (cancelQueued_control _ x).before rfl

theorem cancelAll_control (s : St) (force : Bool) (x : Choice) : SameControl s (cancelAll s force x) := by
  unfold cancelAll
  generalize (if s.exception ≠ [] then _ else _ : List Nat) = cs
  have hall : SameControl s (cs.foldl (cancelDeadlocked force) { s with context := true }) :=
    (SameRest.foldl (cancelDeadlocked_rest force) _ _).toSameControl.before rfl
  exact hall.trans (.of_eq rfl)

theorem act_control {o : Op} (h : act s o = some t) : SameControl s t := by
  cases o with
  | resume c e =>
    obtain ⟨-, ⟨⟩⟩ := Option.ite_none_right_eq_some.1 h
    exact resume_control s c e
  | cancel c safely =>
    obtain ⟨-, ⟨⟩⟩ := Option.ite_none_right_eq_some.1 h
    exact cancel_control s c safely
  | enqueue c =>
    obtain ⟨-, ⟨⟩⟩ := Option.ite_none_right_eq_some.1 h
    exact enqueue_control s c
  | spawn front =>
    cases h
    exact spawn_control s front
  | shutdown x =>
    obtain ⟨-, ⟨⟩⟩ := Option.ite_none_right_eq_some.1 h
    exact startShutdown_control s x
  | create | microtask | startEvent | stopEvent | throw e =>
    cases h
    exact .of_eq rfl

end Control

/-! ## Changes of control -/

/-- Where a change of control leads, and where a fiber stands that has none. -/
def Stack.arrived : Stack → Bool
  | .fresh | .code _ _ | .ended => true
  | .poll _ _ | .finish _ _ _ _ => false
  | .host _ w =>
    match w with
    | .away | .again | .top | .after true | .pooled | .idle | .drains _ | .final _ .loop | .final _ .away
    | .finalize _ _ false | .final _ (.finalize _ _ false) => true
    | _ => false

/-- What a change of control leaves alone. -/
def St.rest (s : St) :=
  (s.made, s.registry, s.queue, s.resumed, s.microtasks, s.events, s.context, s.shutdown, s.exit, s.reports, s.result)

/-- Control has gone to another place, or to another fiber. -/
structure Landed (s t : St) : Prop where
  arrived : (t.stack t.run).arrived = true
  rest : t.rest = s.rest

section Landed

variable {s t u : St} {z : Stack} {h : Host} {x : Choice}

theorem Landed.made (hl : Landed s t) : t.made = s.made := congrArg (·.1) hl.rest
theorem Landed.registry (hl : Landed s t) : t.registry = s.registry := congrArg (·.2.1) hl.rest
theorem Landed.queue (hl : Landed s t) : t.queue = s.queue := congrArg (·.2.2.1) hl.rest
theorem Landed.resumed (hl : Landed s t) : t.resumed = s.resumed := congrArg (·.2.2.2.1) hl.rest
theorem Landed.context (hl : Landed s t) : t.context = s.context := congrArg (·.2.2.2.2.2.2.1) hl.rest
theorem Landed.shutdown (hl : Landed s t) : t.shutdown = s.shutdown := congrArg (·.2.2.2.2.2.2.2.1) hl.rest
theorem Landed.reports (hl : Landed s t) : t.reports = s.reports := congrArg (·.2.2.2.2.2.2.2.2.2.1) hl.rest

/-- Something else has changed before control does. -/
theorem Landed.after (hl : Landed t u) (he : t.rest = s.rest) : Landed s u := ⟨hl.arrived, hl.rest.trans he⟩

theorem setStack_landed (s : St) (hz : z.arrived = true) : Landed s (s.setStack s.run z) := ⟨by simpa using hz, rfl⟩

theorem collect_landed (s : St) (h : Host) (saved : List Nat) : Landed s (collect s s.run h saved) :=
  ⟨by simp [collect, Stack.arrived], rfl⟩

theorem toScheduler_landed (hs : (s.stack s.run).arrived = true) : Landed s (toScheduler s) := by
  unfold toScheduler
  split
  · exact ⟨by simp [Stack.arrived], rfl⟩
  · exact ⟨by simp [Stack.arrived], rfl⟩
  · exact ⟨by simp [collect, Stack.arrived], rfl⟩
  · exact ⟨hs, rfl⟩

/-- A fiber leaves control to the scheduler. -/
theorem leave_landed (s : St) (hz : z.arrived = true) : Landed s (toScheduler (s.setStack s.run z)) := by
  refine (toScheduler_landed ?_).after rfl
  simpa using hz

theorem wake_landed (s : St) (c : Nat) (saved : List Nat) (l : Option Loop) (x : Choice) :
    Landed s (wake s c saved l x) := by
  unfold wake
  split <;> exact ⟨by simp [Stack.arrived], rfl⟩

theorem begin_landed (s : St) (d : Nat) (l : Loop) (x : Choice) : Landed s (begin s d l x) :=
  ⟨by simp [begin, Stack.arrived], rfl⟩

theorem arrive_landed (hs : (s.stack s.run).arrived = true) (g : Nat) (x : Choice) : Landed s (arrive s g x) := by
  unfold arrive
  split
  · exact (begin_landed _ _ _ x).after rfl
  · exact (wake_landed _ _ _ _ x).after rfl
  · exact (leave_landed { s with run := g } rfl).after rfl
  · exact (collect_landed { s with run := g } _ _).after rfl
  · exact (begin_landed _ _ _ x).after rfl
  · exact (begin_landed _ _ _ x).after rfl
  · exact ⟨hs, rfl⟩

theorem switchTo_landed (hs : (s.stack s.run).arrived = true) (d : Nat) (x : Choice) : Landed s (switchTo s d x) := by
  unfold switchTo
  split
  · exact (arrive_landed (s := { s with current := some d }) hs _ x).after rfl
  split
  · refine Landed.after (arrive_landed ?_ _ x) rfl
    exact hs
  · refine Landed.after (arrive_landed ?_ _ x) rfl
    exact hs

/-- A fiber switches to another one. -/
theorem away_landed (s : St) (hz : z.arrived = true) (d : Nat) (x : Choice) :
    Landed s (switchTo (s.setStack s.run z) d x) := by
  refine (switchTo_landed ?_ d x).after rfl
  simpa using hz

theorem park_landed (s : St) (h : Host) : Landed s (park s h) := leave_landed s rfl

theorem exitFiber_landed (s : St) (l : Loop) : Landed s (exitFiber s l) := by
  unfold exitFiber
  split
  · rename_i h1
    rw [← h1]
    exact setStack_landed s rfl
  · exact leave_landed s rfl

end Landed

/-- The scheduler has ended: only exceptions, the context and the current coroutine are
other ones. -/
structure Finished (s t : St) : Prop where
  co : t.co = s.co
  stack : t.stack = s.stack
  run : t.run = s.run
  pool : t.pool = s.pool
  fibers : t.fibers = s.fibers
  made : t.made = s.made
  queue : t.queue = s.queue
  registry : t.registry = s.registry
  given : t.given = s.given
  shutdown : t.shutdown = s.shutdown
  context : t.context = false

theorem finishScheduler_frame (s : St) (e : List Nat) : Finished s (finishScheduler s e) := by
  unfold finishScheduler
  dsimp only
  split
  · exact ⟨rfl, rfl, rfl, rfl, rfl, rfl, rfl, rfl, rfl, rfl, rfl⟩
  split <;> exact ⟨rfl, rfl, rfl, rfl, rfl, rfl, rfl, rfl, rfl, rfl, rfl⟩

/-- Nobody is on the stack that has control then. -/
theorem finishScheduler_fresh (s : St) (e : List Nat) :
    (finishScheduler (s.setStack s.run .fresh) e).stack (finishScheduler (s.setStack s.run .fresh) e).run = .fresh := by
  have hf := finishScheduler_frame (s.setStack s.run .fresh) e
  rw [hf.stack, hf.run]
  simp

/-! ## Calls -/

/-- Where the code of a coroutine stands behind a call. -/
inductive Called (c : Nat) (l : Option Loop) : Stack → Prop where
  | code : Called c l (.code c l)
  | poll : Called c l (.poll c l)
  | starting (saved : List Nat) : Called c l (.host (.suspend c saved l) .starting)
  | finish (held : List Nat) : Called c l (.finish c l held false)

/-- A call of the code of a coroutine does not leave its fiber. -/
structure CallFrame (s : St) (c : Nat) (l : Option Loop) (t : St) : Prop where
  stack : ∃ z, Called c l z ∧ t.stack = update s.stack s.run z
  run : t.run = s.run
  exit : t.exit = s.exit
  reports : t.reports = s.reports
  seen : t.seen = s.seen
  result : t.result = s.result

variable {s : St}

theorem suspend_frame {c : Nat} {l : Option Loop} (hs : s.stack s.run = .code c l) (bare : Bool) (e : Nat) :
    CallFrame s c l (suspend s c l bare e) := by
  have hsame : s.stack = update s.stack s.run (.code c l) := by rw [← hs, update_eq_self]
  unfold suspend
  split
  · exact ⟨⟨_, .code, hsame⟩, rfl, rfl, rfl, rfl, rfl⟩
  split
  · exact ⟨⟨_, .starting s.exception, rfl⟩, rfl, rfl, rfl, rfl, rfl⟩
  split
  · exact ⟨⟨_, .code, hsame⟩, rfl, rfl, rfl, rfl, rfl⟩
  · exact ⟨⟨_, .starting s.exception, rfl⟩, rfl, rfl, rfl, rfl, rfl⟩

theorem call_frame {c : Nat} {l : Option Loop} (hs : s.stack s.run = .code c l) (k : Call) :
    CallFrame s c l (call s c l k) := by
  have hsame : s.stack = update s.stack s.run (.code c l) := by rw [← hs, update_eq_self]
  cases k with
  | suspend yield bare e =>
    unfold call
    cases yield with
    | false => exact suspend_frame hs bare e
    | true =>
      have hq := enqueue_rest s c
      have hcode : (enqueue s c).stack (enqueue s c).run = .code c l := by rw [hq.stack, hq.run, hs]
      obtain ⟨⟨z, hz, hstack⟩, hrun, hexit, hreports, hseen, hresult⟩ := suspend_frame hcode bare e
      rw [hq.stack, hq.run] at hstack
      exact ⟨⟨z, hz, hstack⟩, hrun.trans hq.run, hexit.trans hq.exit, hreports.trans hq.reports, hseen.trans hq.seen,
        hresult.trans hq.result⟩
  | poll => exact ⟨⟨_, .poll, rfl⟩, rfl, rfl, rfl, rfl, rfl⟩
  | finish =>
    unfold call finish
    cases l <;> exact ⟨⟨_, .finish s.exception, rfl⟩, rfl, rfl, rfl, rfl, rfl⟩
  | clean | protect | catch_ => exact ⟨⟨_, .code, hsame⟩, rfl, rfl, rfl, rfl, rfl⟩

/-! ## Ways on -/

/-- Where a tick or loop goes on, once it has done what it does before control changes. -/
inductive Way where
  /-- at another point of it -/
  | point (w : Work)
  /-- in the code behind the suspension, with these exceptions pending -/
  | code (e : List Nat)
  | wake
  /-- behind its callbacks; `idle`: no event is active -/
  | past (idle : Bool)
  /-- out of the tick, or to the end of the loop; `failed`: deadlocks were not resolved -/
  | out (failed : Bool)
  | pool
  /-- with the entry of `d`, which is out of the queue; in `execute_queued_coroutines` an
  exception may have been put aside -/
  | entry (d : Nat) (aside : Option (List Nat))
  | next (saved : List Nat)
  | collect (saved : List Nat)

/-- Where exceptions are looked for. -/
def Work.handling : Work → Host → Bool
  | .heartbeat, _ | .micro _, _ | .reactor, _ | .top, .loop _ | .after _, .loop _ => true
  | _, _ => false

/-- From where microtasks are taken to where one runs. -/
def Work.task : Work → Option Work
  | .micro false => some (.micro true)
  | .final saved (.micro false) => some (.final saved (.micro true))
  | .last exit false => some (.last exit true)
  | _ => none

/-- A coroutine is finalized in place. -/
def Work.place (aside : Option (List Nat)) (d : Nat) (held : List Nat) (late : Bool) : Work :=
  match aside with
  | none => .finalize d held late
  | some saved => .final saved (.finalize d held late)

def Work.switched : Option (List Nat) → Work
  | none => .away
  | some saved => .final saved .away

def Host.onLoop (f : Loop → Loop) : Host → Host
  | .loop l => .loop (f l)
  | .suspend c saved k => .suspend c saved k

/-- Behind the heartbeat handler. -/
def beaten (s : St) (x : Choice) : Host → St
  | .suspend _ _ _ => processResumed (handle s x) x
  | .loop _ => handle s x

/-- Behind the reactor. -/
def reacted (s : St) (x : Choice) : Host → St
  | .suspend _ _ _ => leaveContext (handle s x) x
  | .loop _ => { handle (processResumed s x) x with context := false }

/-- Behind a finalization in place. -/
def Host.behind (e : List Nat) : Option (List Nat) → Host → Way
  | some saved, _ => .collect saved
  | none, .loop _ => .point (.after true)
  | none, .suspend _ _ _ => if e = [] then .out false else .wake

/-- What a step of the tick or loop `h` at the point `w` does before control changes, and
where it goes on. -/
inductive Pre (s : St) (x : Choice) : Host → Work → Host → Way → St → Prop where
  | settled {c : Nat} {saved : List Nat} {l : Option Loop} (hr : (s.co c).status = .result) :
    Pre s x (.suspend c saved l) .starting (.suspend c saved l) (.code (x.error ++ s.exception ++ saved))
      (leaveContext s x)
  | unstarted {c : Nat} {saved : List Nat} {l : Option Loop} (hr : (s.co c).status ≠ .result) (he : s.exception ≠ []) :
    Pre s x (.suspend c saved l) .starting (.suspend c saved l) (.code (s.exception ++ saved))
      ({ s with context := false }.setStatus c .noStatus)
  | waits {c : Nat} {saved : List Nat} {l : Option Loop} (hr : (s.co c).status ≠ .result) (he : s.exception = []) :
    Pre s x (.suspend c saved l) .starting (.suspend c saved l)
      (.point (if x.heartbeat then .heartbeat else .micro false)) { s with context := true }
  | guarded {h : Host} {w : Work} (hw : w.handling h = true) (he : s.exception ≠ []) (hs : s.shutdown = true) :
    Pre s x h w h (.point (.final [] .loop)) (finallyShutdown s x)
  | beat {h : Host} (hg : s.shutdown = true → s.exception = []) :
    Pre s x h .heartbeat h (.point (.micro false)) (beaten s x h)
  | polls {h : Host} {b : Bool} (hg : s.shutdown = true → s.exception = []) :
    Pre s x h (.micro b) (h.onLoop fun l => { l with next := decide ((handle s x).queue ≠ []) }) (.point .reactor) (handle s x)
  | quiet {h : Host} {b : Bool} (hg : s.shutdown = true → s.exception = [])
    (hq : ∀ l, h = .loop l → (handle s x).queue ≠ []) :
    Pre s x h (.micro b) (h.onLoop fun l => { l with next := decide ((handle s x).queue ≠ []) }) (.past false)
      (leaveContext (handle s x) x)
  | task {h : Host} {w w' : Work} (hw : w.task = some w') :
    Pre s x h w h (.point w') { s with microtasks := s.microtasks - 1 }
  | taskDone {h : Host} {w w' : Work} (hw : w'.task = some w) : Pre s x h w h (.point w') s
  | reactor {h : Host} (hg : s.shutdown = true → s.exception = []) :
    Pre s x h .reactor (h.onLoop fun l => { l with handles := loopAlive s x }) (.past (!loopAlive s x)) (reacted s x h)
  | channels {h : Host} : Pre s x h .channels h (.out false) s
  | drain {h : Host} : Pre s x h .drain h (.out false) (processResumed s x)
  | report {h : Host} {u : St} (hq : s.queue = [])
    (hu : u = cancelAll (reportDeadlock (processResumed s x) x) true x) :
    Pre s x h .drain h (.out (decide (u.exception ≠ []))) u
  | destroy {h : Host} {w : Work} {d : Nat} {held : List Nat} (aside : Option (List Nat))
    (hw : w = .place aside d held false) : Pre s x h w h (.point (.place aside d held true)) (s.setStatus d .noStatus)
  | placed {h : Host} {w : Work} {d : Nat} {held : List Nat} {u : St} (aside : Option (List Nat))
    (hw : w = .place aside d held true) (hu : u = { release s d held x with current := none }) :
    Pre s x h w h (h.behind u.exception aside) u
  | final {h : Host} {saved : List Nat} : Pre s x h (.final saved .loop) h (.next saved) s
  | merge {h : Host} {saved : List Nat} {b : Bool} : Pre s x h (.final saved (.micro b)) h (.out false) (finalMerge s x)
  | top {l : Loop} (hg : s.shutdown = true → s.exception = []) :
    Pre s x (.loop l) .top (.loop l) (.point (if x.heartbeat then .heartbeat else .micro false))
      { handle s x with context := true }
  | deadlock {l : Loop} (hg : s.shutdown = true → s.exception = []) (hl : l.handles = false) :
    Pre s x (.loop l) (.after false) (.loop l) (.past true) (handle s x)
  | again {l : Loop} {b : Bool} (hg : s.shutdown = true → s.exception = []) :
    Pre s x (.loop l) (.after b) (.loop l) (.out false) (handle s x)
  | drains {l : Loop} {n : Nat} : Pre s x (.loop l) (.drains n) (.loop l) (.point (.drains (n - 1))) s
  -- behind the callbacks
  | cancelled {h h' : Host} {w : Work} {u : St} (hp : Pre s x h w h' (.past true) u) (hy : x.yielded = true) :
    Pre s x h w h' (.out (decide ((cancelAll u false x).exception ≠ []))) (cancelAll u false x)
  | closes {h h' : Host} {w : Work} {u : St} (hp : Pre s x h w h' (.past true) u) : Pre s x h w h' (.point .channels) u
  | lastDrain {h h' : Host} {w : Work} {u : St} (hp : Pre s x h w h' (.past true) u) (hm : u.microtasks = 0) :
    Pre s x h w h' (.point .drain) u
  | nobody {h : Host} {w : Work} {l : Loop} {u : St} {idle : Bool} (hp : Pre s x h w (.loop l) (.past idle) u)
    (hn : u.queue = [] ∨ l.next = false) : Pre s x h w (.loop l) (.point (.after false)) u
  | leaves {h h' : Host} {w : Work} {u : St} {idle : Bool} (hp : Pre s x h w h' (.past idle) u) :
    Pre s x h w h' (.out false) u
  | pools {h : Host} {w : Work} {l : Loop} {u : St} {idle : Bool} (hp : Pre s x h w (.loop l) (.past idle) u) :
    Pre s x h w (.loop l) .pool u
  | resumed {h h' : Host} {w : Work} {u : St} {idle : Bool} (hp : Pre s x h w h' (.past idle) u)
    (hr : (u.current.any fun d => (u.co d).status = .result) = true) : Pre s x h w h' .wake u
  | pop {h h' : Host} {w : Work} {u : St} {idle : Bool} {d : Nat} {q : List Nat} (hp : Pre s x h w h' (.past idle) u)
    (hq : u.queue = d :: q) : Pre s x h w h' (.entry d none) { u with queue := q }
  -- in `execute_queued_coroutines`
  | popFinal {h h' : Host} {w : Work} {u : St} {saved : List Nat} {d : Nat} {q : List Nat}
    (hp : Pre s x h w h' (.next saved) u) (hq : u.queue = d :: q) :
    Pre s x h w h' (.entry d (some saved)) { u with queue := q }
  | empty {h h' : Host} {w : Work} {u : St} {saved : List Nat} (hp : Pre s x h w h' (.next saved) u) :
    Pre s x h w h' (.point (.final saved (.micro false)))
      { u with context := true, exception := setPrevious u.exception saved }

/-- How control changes then. -/
inductive Out (s : St) (x : Choice) : Host → Way → St → Prop where
  | point {h : Host} {w : Work} : Out s x h (.point w) (s.setStack s.run (.host h w))
  | code {c : Nat} {saved e : List Nat} {l : Option Loop} :
    Out s x (.suspend c saved l) (.code e) { s.setStack s.run (.code c l) with exception := e }
  | wake {c : Nat} {saved : List Nat} {l : Option Loop} : Out s x (.suspend c saved l) .wake (wake s c saved l x)
  | away {c : Nat} {saved : List Nat} {l : Option Loop} {failed : Bool} :
    Out s x (.suspend c saved l) (.out failed) (park s (.suspend c saved l))
  | again {c : Nat} {saved : List Nat} {l : Option Loop} :
    Out s x (.suspend c saved l) (.out true) (toScheduler (s.setStack s.run (.host (.suspend c saved l) .again)))
  | top {l : Loop} {failed : Bool} : Out s x (.loop l) (.out failed) (s.setStack s.run (.host (.loop l) .top))
  | ends {l : Loop} {failed : Bool} : Out s x (.loop l) (.out failed) (exitFiber s l)
  | pools {l : Loop} (h1 : s.run ≠ 1) : Out s x (.loop l) .pool
      (toScheduler ({ s with pool := s.pool ++ [s.run] }.setStack s.run (.host (.loop l) .idle)))
  | own {c d : Nat} {saved : List Nat} {k : Option Loop} (hc : s.current = some d) :
    Out s x (.suspend c saved k) (.entry d none) (Scheduler.wake s c saved k x)
  | collects {h : Host} {d : Nat} {saved : List Nat} (hc : s.current = some d) :
    Out s x h (.entry d (some saved)) (collect s s.run h saved)
  | ignored {h : Host} {d : Nat} {aside : Option (List Nat)} (hi : (s.co d).status = .ignored) :
    Out s x h (.entry d aside)
      ((ignore s d).setStack s.run (.host h (.place aside d (x.error ++ s.exception) false)))
  | switched {h : Host} {d : Nat} {aside : Option (List Nat)} (hi : (s.co d).status ≠ .ignored) :
    Out s x h (.entry d aside) (switchTo (s.setStack s.run (.host h (.switched aside))) d x)
  | begun {l : Loop} {d : Nat} (hi : (s.co d).status ≠ .ignored) (h1 : s.run ≠ 1) (hn : (s.co d).fiber = none) :
    Out s x (.loop l) (.entry d none) (begin { s with current := some d } d l x)
  | mine {l : Loop} {d : Nat} (hg : (s.co d).fiber = some s.run) : Out s x (.loop l) (.entry d none) (begin s d l x)
  | pooled {l : Loop} {d g : Nat} (hi : (s.co d).status ≠ .ignored) (h1 : s.run ≠ 1) (hg : (s.co d).fiber = some g)
    (hne : g ≠ s.run) : Out s x (.loop l) (.entry d none)
      (arrive ({ s with pool := s.pool ++ [s.run], current := some d }.setStack s.run (.host (.loop l) .pooled)) g x)
  | ended {l : Loop} {d g : Nat} (hi : (s.co d).status ≠ .ignored) (h1 : s.run ≠ 1) (hg : (s.co d).fiber = some g)
    (hne : g ≠ s.run) : Out s x (.loop l) (.entry d none) (arrive (s.setStack s.run .fresh) g x)
  | collect {h : Host} {saved : List Nat} : Out s x h (.collect saved) (Scheduler.collect s s.run h saved)

section Out

variable {s t u : St} {x : Choice} {h h' : Host} {w : Work} {m : Way}

theorem Out.landed (ho : Out s x h m t) : (∃ w, m = .point w ∧ t = s.setStack s.run (.host h w)) ∨
    Landed s t ∧ ∀ w, m ≠ .point w := by
  cases ho with
  | point => exact .inl ⟨_, rfl, rfl⟩
  | code => exact .inr ⟨⟨by simp [Stack.arrived], rfl⟩, nofun⟩
  | wake | own => exact .inr ⟨wake_landed s _ _ _ x, nofun⟩
  | away => exact .inr ⟨park_landed s _, nofun⟩
  | again => exact .inr ⟨leave_landed s rfl, nofun⟩
  | top => exact .inr ⟨setStack_landed s rfl, nofun⟩
  | ends => exact .inr ⟨exitFiber_landed s _, nofun⟩
  | pools h1 => exact .inr ⟨(leave_landed { s with pool := s.pool ++ [s.run] } rfl).after rfl, nofun⟩
  | collect | collects => exact .inr ⟨collect_landed s h _, nofun⟩
  | @ignored d _ aside hi => exact .inr ⟨⟨by cases aside <;> simp [ignore, Work.place, Stack.arrived], rfl⟩, nofun⟩
  | @switched d _ aside hi =>
    refine .inr ⟨away_landed s ?_ _ x, nofun⟩
    cases aside <;> rfl
  | begun => exact .inr ⟨(begin_landed _ _ _ x).after rfl, nofun⟩
  | mine => exact .inr ⟨begin_landed s _ _ x, nofun⟩
  | pooled | ended =>
    refine .inr ⟨Landed.after (arrive_landed ?_ _ x) rfl, nofun⟩
    simp [Stack.arrived]

theorem reacted_control (s : St) (x : Choice) (h : Host) : SameControl s (reacted s x h) := by
  cases h with
  | suspend c saved k => exact (handle_control s x).trans (.of_eq rfl)
  | loop l =>
    have hc : SameControl s (handle (processResumed s x) x) := (handle_control _ x).before rfl
    exact hc.trans (.of_eq rfl)

theorem beaten_control (s : St) (x : Choice) (h : Host) : SameControl s (beaten s x h) := by
  cases h with
  | suspend c saved k => exact (handle_control s x).trans (.of_eq rfl)
  | loop l => exact handle_control s x

theorem finalMerge_control (s : St) (x : Choice) : SameControl s (finalMerge s x) := by
  unfold finalMerge
  split <;> exact .of_eq rfl

/-- Who is finalized in place has no fiber. -/
theorem Pre.same (hn : ∀ aside d held, w = .place aside d held true → (s.co d).fiber = none) (hp : Pre s x h w h' m u) :
    SameFibers s u := by
  induction hp with
  | settled | waits | task | taskDone | channels | drain | final | drains => exact .of_eq rfl
  | @unstarted c _ _ _ => exact (SameControl.setStatus { s with context := false } c .noStatus).toSameFibers.before rfl
  | guarded => exact (finallyShutdown_control s x).toSameFibers
  | beat => exact (beaten_control s x _).toSameFibers
  | polls | deadlock | again => exact (handle_control s x).toSameFibers
  | quiet | top => exact (handle_control s x).toSameFibers.trans (.of_eq rfl)
  | reactor => exact (reacted_control s x _).toSameFibers
  | report _ hu =>
    subst hu
    exact (cancelAll_control (reportDeadlock (processResumed s x) x) true x).toSameFibers.before rfl
  | destroy => exact (SameControl.setStatus s _ .noStatus).toSameFibers
  | @placed _ _ d held _ aside hw hu =>
    subst hu
    have hset : SameControl s (s.setCo d { s.co d with fiber := none }) := .setCo rfl rfl (hn aside d held hw).symm
    exact hset.toSameFibers.trans (.of_eq rfl)
  | merge => exact (finalMerge_control s x).toSameFibers
  | cancelled _ _ ih => exact (ih hn).trans (cancelAll_control _ false x).toSameFibers
  | closes _ ih | lastDrain _ _ ih | nobody _ _ ih | leaves _ ih | pools _ ih | resumed _ _ ih => exact ih hn
  | pop _ _ ih | popFinal _ _ ih | empty _ ih => exact (ih hn).trans (.of_eq rfl)

theorem Pre.starting (hw : w = .starting) (hp : Pre s x h w h' m u) : h' = h ∧ u.lines.2 = s.lines.2 ∧
    ((∃ w', m = .point w') ∨ ∃ c saved l e, h = .suspend c saved l ∧ m = .code e ∧
      ((u.co c).status = .result ∨ s.exception ≠ [])) := by
  induction hp with
  | settled hr => exact ⟨rfl, rfl, .inr ⟨_, _, _, _, rfl, rfl, .inl hr⟩⟩
  | unstarted hr he => exact ⟨rfl, rfl, .inr ⟨_, _, _, _, rfl, rfl, .inr he⟩⟩
  | waits => exact ⟨rfl, rfl, .inl ⟨_, rfl⟩⟩
  | guarded hh | task hh =>
    rw [hw] at hh
    cases hh
  | taskDone hh =>
    subst hw
    unfold Work.task at hh
    split at hh <;> cases hh
  | destroy aside hh | placed aside hh =>
    rw [hw] at hh
    cases aside <;> cases hh
  | cancelled _ _ ih | closes _ ih | lastDrain _ _ ih | nobody _ _ ih | leaves _ ih | pools _ ih | resumed _ _ ih
  | pop _ _ ih | popFinal _ _ ih | empty _ ih =>
    obtain ⟨-, -, ⟨_, hm⟩ | ⟨_, _, _, _, -, hm, -⟩⟩ := ih hw <;> cases hm
  | _ => cases hw

theorem Host.onLoop_id (h : Host) : h.onLoop id = h := by
  cases h <;> rfl

theorem Pre.host (hp : Pre s x h w h' m u) : ∃ f, h' = h.onLoop f := by
  induction hp with
  | polls | quiet | reactor => exact ⟨_, rfl⟩
  | cancelled _ _ ih | closes _ ih | lastDrain _ _ ih | nobody _ _ ih | leaves _ ih | pools _ ih | resumed _ _ ih
  | pop _ _ ih | popFinal _ _ ih | empty _ ih => exact ih
  | _ => exact ⟨id, (Host.onLoop_id _).symm⟩

end Out

/-- What a step of a tick or of a loop does. -/
inductive Turn (s : St) (x : Choice) (h : Host) (w : Work) : St → Prop where
  | way {h' : Host} {m : Way} {u t : St} (hp : Pre s x h w h' m u) (ho : Out u x h' m t) : Turn s x h w t
  | drained {l : Loop} {n : Nat} (hh : h = .loop l) (hw : w = .drains n) : Turn s x h w ({ s with
      context := true
      pool := []
      stack := fun f => if f ∈ s.pool then .fresh else s.stack f }.setStack s.run (.host h (.last s.exit false)))
  | last {l : Loop} {exit : List Nat} {b : Bool} (hh : h = .loop l) (hw : w = .last exit b) :
    Turn s x h w (finishScheduler (s.setStack s.run .fresh) exit)

section Turn

variable {s t u : St} {x : Choice} {h h' : Host} {w : Work} {idle : Bool}

theorem Turn.out {failed : Bool} (hp : Pre s x h w h' (.out failed) u) : Turn s x h w (afterResolve u h' failed x) := by
  unfold afterResolve loopEnd
  cases h' with
  | suspend c saved k =>
    dsimp only
    split
    · subst_vars
      exact .way hp .again
    · exact .way hp .away
  | loop l =>
    dsimp only
    split
    · exact .way hp .ends
    split
    · exact .way hp .top
    · exact .way hp .ends

theorem Turn.resolve (hp : Pre s x h w h' (.past true) u) (hm : u.microtasks = 0) : Turn s x h w (resolve u h' x) := by
  unfold Scheduler.resolve
  split
  · exact .way (.closes hp) .point
  split
  · exact .out (.cancelled hp ‹_›)
  · exact .way (.lastDrain hp hm) .point

theorem Turn.tickEnd {c : Nat} {saved : List Nat} {k : Option Loop} (hp : Pre s x h w (.suspend c saved k) (.past idle) u) :
    Turn s x h w (tickEnd u c saved k (!idle) x) := by
  unfold Scheduler.tickEnd
  split
  · exact .way (.resumed hp ‹_›) .wake
  split
  · split
    · rename_i hd
      obtain ⟨hi, -, hm⟩ := hd
      obtain rfl : idle = true := by simpa using hi
      exact .resolve hp hm
    · exact .way (.leaves hp) .away
  · have hpop := Pre.pop hp ‹_›
    unfold tickExecute
    split
    · exact .way hpop (.own ‹_›)
    split
    · exact .way hpop (.ignored ‹_›)
    · exact .way hpop (.switched ‹_›)

theorem Turn.dispatch {l : Loop} (hp : Pre s x h w (.loop l) (.past idle) u) : Turn s x h w (dispatch u l x) := by
  unfold Scheduler.dispatch
  split
  · split
    · exact .way (.nobody hp (.inl ‹_›)) .point
    have hpop := Pre.pop hp ‹_›
    unfold loopExecute
    split
    · exact .way hpop (.ignored ‹_›)
    split
    · exact .way hpop (.switched ‹_›)
    split
    · exact .way hpop (.begun ‹_› ‹_› ‹_›)
    split
    · subst_vars
      exact .way hpop (.mine ‹_›)
    split
    · exact .way hpop (.pooled ‹_› ‹_› ‹_› ‹_›)
    · exact .way hpop (.ended ‹_› ‹_› ‹_› ‹_›)
  split
  · exact .way (.nobody hp (.inr (Bool.eq_false_iff.2 ‹_›))) .point
  split
  · exact .way (.pools hp) (.pools ‹_›)
  · exact .way (.leaves hp) .ends

/-- A handling point: during a shutdown an exception leads to its last part. -/
theorem Turn.guard {k : St} (hw : w.handling h = true)
    (hk : (s.shutdown = true → s.exception = []) → Turn s x h w k) : Turn s x h w (guardShutdown s h x k) := by
  unfold guardShutdown
  split
  · rename_i hc
    rw [← (finallyShutdown_control s x).run]
    exact .way (.guarded hw hc.1 hc.2) .point
  · rename_i hc
    exact hk fun hs => not_not.1 fun he => hc ⟨he, hs⟩

theorem Turn.afterMicro {b : Bool} (hg : s.shutdown = true → s.exception = []) :
    Turn s x h (.micro b) (afterMicro (handle s x) h x) := by
  unfold Scheduler.afterMicro
  cases h with
  | suspend c saved k =>
    dsimp only
    split
    · exact .way (.polls hg) .point
    · exact Turn.tickEnd (Pre.quiet (h := .suspend c saved k) hg nofun)
  | loop l =>
    dsimp only
    split
    · exact .way (.polls hg) .point
    · rename_i hq
      exact .dispatch (.quiet hg fun _ _ he => hq (.inl he))

theorem Turn.afterDrain : Turn s x h .drain (afterDrain s h x) := by
  unfold Scheduler.afterDrain
  split
  · exact .out .drain
  · exact .out (.report (not_not.1 ‹_›) rfl)

theorem Turn.finalLoop {saved : List Nat} : Turn s x h (.final saved .loop) (finalLoop s h saved x) := by
  unfold Scheduler.finalLoop
  split
  · exact .way (.empty .final) .point
  · have hfinal : Pre s x h (.final saved .loop) h (.next saved) s := .final
    have hpop := Pre.popFinal hfinal ‹_›
    unfold finalExecute
    split
    · exact .way hpop (.collects ‹_›)
    split
    · exact .way hpop (.ignored ‹_›)
    · exact .way hpop (.switched ‹_›)

theorem Turn.merge {saved : List Nat} {b : Bool} : Turn s x h (.final saved (.micro b)) (afterFinal (finalMerge s x) h) := by
  cases h with
  | suspend c saved k => exact .way .merge .away
  | loop l => exact .way .merge .ends

theorem turn_of_goWork (hgo : goWork s h w x = some t) : Turn s x h w t := by
  unfold goWork at hgo
  dsimp only at hgo
  split at hgo
  · split at hgo
    · cases hgo
      exact .way (.settled ‹_›) .code
    split at hgo <;> cases hgo
    · exact .way (.unstarted ‹_› ‹_›) .code
    · exact .way (.waits ‹_› (not_not.1 ‹_›)) .point
  · cases hgo
    refine .guard rfl fun hg => ?_
    rw [← (handle_control s x).run]
    exact .way (.beat hg) .point
  · cases hgo
    refine .guard rfl fun hg => ?_
    rw [← (handle_control s x).run]
    exact .way (.beat hg) .point
  · split at hgo <;> cases hgo
    · exact .guard rfl .afterMicro
    · exact .way (.task rfl) .point
  · split at hgo <;> cases hgo
    · exact .way (.taskDone rfl) .point
    · exact .guard rfl .afterMicro
  · cases hgo
    refine .guard rfl fun hg => ?_
    cases h with
    | suspend c saved k =>
      have hend := Turn.tickEnd (Pre.reactor (x := x) (h := .suspend c saved k) hg)
      rw [Bool.not_not] at hend
      exact hend
    | loop l => exact .dispatch (.reactor hg)
  · cases hgo
    exact .out .channels
  · cases hgo
    exact .afterDrain
  · cases hgo
    exact .way (.destroy none rfl) .point
  · split at hgo <;> cases hgo
    · refine .way (.placed none rfl rfl) ?_
      rw [Host.behind, if_pos ‹_›]
      exact .away
    · refine .way (.placed none rfl rfl) ?_
      rw [Host.behind, if_neg ‹_›]
      exact .wake
  · cases hgo
    exact .way (.placed none rfl rfl) .point
  · cases hgo
    exact .finalLoop
  · cases hgo
    exact .way (.destroy (some _) rfl) .point
  · cases hgo
    exact .way (.placed (some _) rfl rfl) .collect
  · split at hgo <;> cases hgo
    · exact .merge
    · exact .way (.task rfl) .point
  · split at hgo <;> cases hgo
    · exact .way (.taskDone rfl) .point
    · exact .merge
  · cases hgo
    exact .guard rfl fun hg => .way (.top hg) .point
  · cases hgo
    refine .guard rfl fun hg => ?_
    split
    · rename_i hd
      obtain ⟨hl, rfl, -, -, hm⟩ := hd
      exact .resolve (.deadlock hg hl) hm
    · exact .out (.again hg)
  · split at hgo <;> cases hgo
    · exact .way .drains .point
    · exact .drained rfl rfl
  · split at hgo <;> cases hgo
    · exact .last rfl rfl
    · exact .way (.task rfl) .point
  · split at hgo <;> cases hgo
    · exact .way (.taskDone rfl) .point
    · exact .last rfl rfl
  · cases hgo

end Turn

/-- What a step of the scheduler does. -/
inductive Step (s : St) : Lbl → St → Prop where
  | op {o : Op} {t : St} (hf : (s.stack s.run).foreign = true) (ha : act s o = some t) : Step s (.op o) t
  | call {c : Nat} {l : Option Loop} (hs : s.stack s.run = .code c l) (k : Call) : Step s (.call k) (call s c l k)
  | turn {h : Host} {w : Work} {x : Choice} {t : St} (hs : s.stack s.run = .host h w) (ht : Turn s x h w t) : Step s (.go x) t
  | polled {c : Nat} {l : Option Loop} {x : Choice} (hs : s.stack s.run = .poll c l) :
    Step s (.go x) ((leaveContext s x).setStack s.run (.code c l))
  | finish {c : Nat} {l : Option Loop} {held : List Nat} {late : Bool} {x : Choice}
    (hs : s.stack s.run = .finish c l held late) : Step s (.go x) (goFinish s c l held late x)

theorem step_cases {t : St} {l : Lbl} (h : step s l = some t) : Step s l t := by
  cases l with
  | op o =>
    obtain ⟨hf, ha⟩ := Option.ite_none_right_eq_some.1 h
    exact .op hf ha
  | call k =>
    simp only [step] at h
    split at h <;> cases h
    exact .call ‹_› k
  | go x =>
    simp only [step, go] at h
    split at h
    · exact .turn ‹_› (turn_of_goWork h)
    · cases h
      exact .polled ‹_›
    · cases h
      exact .finish ‹_›
    · cases h

end PhpAsync.L2.Scheduler
