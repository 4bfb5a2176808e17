import PhpAsync.Core.LTS
import PhpAsync.Core.Tally

/-!
# Cancellation of a pool task

Model of the cancellation protocol between the consumer of a task's future (future.c) and
the worker that runs it (thread_pool.c:884-1205 in coroutine mode, 620-700 in sync mode).
They share the flag `requested`, the mark `completed` and the borrowed trigger, under the
state's mutex. The table of tasks in flight belongs to the worker's thread alone, so what
the worker does to it is part of its next access to the shared state.

One worker and any number of its tasks. A step of the worker's loop is not taken while the
callback of its trigger walks over the table. A coroutine that is cancelled before it has
started does not run (`L2Coroutine`).

Internal tasks are outside of the protocol. `fails` stands for every reason not to run a
task (the trigger, the closure, the scope or the coroutine cannot be made).

* `cancellation_not_lost`
-/
namespace PhpAsync.L2.ThreadPool.Cancellation

open PhpAsync.Core

/-- What the table has for a task. -/
inductive Entry where
  | preparing
  | coroutine
  deriving DecidableEq, Repr

inductive Phase where
  | queued
  | received
  /-- the flag was not set -/
  | checked
  /-- sync mode: the body is spawned -/
  | bodied
  | listed
  /-- the bind found the flag -/
  | refused
  | bound
  /-- the task cannot run and is off the table -/
  | failed
  | spawned
  /-- the coroutine is listed, the flag not read again -/
  | linked
  /-- with the scheduler -/
  | running
  | ended
  /-- between the answer and the removal from the table, or the other way round -/
  | settled
  | done
  deriving DecidableEq, Repr

structure Task where
  phase : Phase
  requested : Bool
  completed : Bool
  bound : Bool
  entry : Option Entry
  /-- user code has run -/
  started : Bool
  cancelled : Bool
  deriving DecidableEq, Repr

def Task.new : Task := ⟨.queued, false, false, false, none, false, false⟩

/-- A worker: `pending`, its trigger was fired; `todo`, the tasks the trigger's callback has still to look at;
`sweep`, those the end of the worker has still to look at; `bailed`, it ends before its tasks. -/
structure St where
  tasks : List Task
  pending : Bool
  todo : List Nat
  sweep : Option (List Nat)
  disposed : Bool
  bailed : Bool
  deriving DecidableEq, Repr

def start (n : Nat) : St := ⟨List.replicate n .new, false, [], none, false, false⟩

/-! ## The worker -/

/-- mirrors src/thread_pool.c:998-1003 -/
def forget (x : Task) : Task := { x with entry := none, bound := false }

/-- `track`, and what the two modes do when it is refused.
mirrors src/thread_pool.c:984-996, src/future.c:2206-2221 -/
def bind (coroutineMode : Bool) (x : Task) : Task :=
  if x.requested then
    if coroutineMode then { x with entry := none, phase := .refused }
    else { x with entry := none, cancelled := true, phase := .running }
  else { x with bound := true, phase := if coroutineMode then .bound else .running }

inductive Act where
  | receive
  | check
  | fail (settled : Bool)
  | spawn (ok : Bool)
  | list
  | bind
  | link
  | reread
  | run
  | finish
  | settle
  | forget
  deriving DecidableEq, Repr

/-- mirrors src/thread_pool.c:458-740, 1060-1205 -/
def act (coroutineMode : Bool) (x : Task) (a : Act) : Option Task :=
  match a, x.phase with
  | .receive, .queued => some { x with phase := .received }
  | .check, .received =>
    if x.requested then some { x with completed := true, phase := .done } else some { x with phase := .checked }
  | .fail settled, .checked => some { x with completed := x.completed || settled, phase := .done }
  | .list, .checked => if coroutineMode then some { x with entry := some .preparing, phase := .listed } else none
  | .spawn ok, .checked =>
    if coroutineMode then none else some { x with phase := if ok then .bodied else .failed }
  | .list, .bodied => some { x with entry := some .coroutine, phase := .listed }
  | .bind, .listed => some (bind coroutineMode x)
  | .settle, .refused => some { x with completed := true, phase := .done }
  | .spawn ok, .bound => if ok then some { x with phase := .spawned } else some { forget x with phase := .failed }
  | .fail settled, .failed => some { x with completed := x.completed || settled, phase := .done }
  | .link, .spawned => some { x with entry := some .coroutine, phase := .linked }
  | .reread, .linked => some { x with cancelled := x.cancelled || x.requested, phase := .running }
  | .run, .running =>
    if x.started then none
    else if x.cancelled then some { x with phase := .ended }
    else some { x with started := true }
  | .finish, .running => if x.started then some { x with phase := .ended } else none
  | .settle, .ended => if coroutineMode then some { x with completed := true, phase := .settled } else none
  | .forget, .settled => if coroutineMode then some { forget x with phase := .done } else none
  | .forget, .ended => if coroutineMode then none else some { forget x with phase := .settled }
  | .settle, .settled => if coroutineMode then none else some { x with completed := true, phase := .done }
  | _, _ => none

/-- The callback looks at a task.
mirrors src/thread_pool.c:925-950 -/
def visit (x : Task) : Task :=
  if x.entry = some .coroutine ∧ x.requested then { x with cancelled := true } else x

/-- The end of the worker looks at a task: what is listed is unbound.
mirrors src/thread_pool.c:1013-1017 -/
def unbind (x : Task) : Task := if x.entry.isSome then { x with bound := false } else x

/-! ## The consumer -/

/-- The flag is raised, and the trigger fired that is bound.
mirrors src/future.c:2178-2205 -/
def requestCancel (s : St) (i : Nat) (x : Task) : St :=
  if x.completed then s
  else { s with tasks := s.tasks.set i { x with requested := true }, pending := s.pending || x.bound }

/-! ## The system -/

inductive Lbl where
  | act (i : Nat) (a : Act)
  | wake
  | visit
  /-- the worker comes to its end, with a bailout or after its tasks -/
  | leave (bailout : Bool)
  | unbind
  | dispose
  | requestCancel (i : Nat)
  /-- the consumer drops the future: no result can reach it any more -/
  | sever (i : Nat)
  deriving DecidableEq, Repr

/-- The loop of the worker can go on. -/
def St.free (s : St) : Bool := s.todo.isEmpty && s.sweep.isNone

/-- All tasks the worker has taken are answered. -/
def St.idle (s : St) : Bool := s.tasks.all fun x => x.phase == .queued || x.phase == .done

def step (coroutineMode : Bool) (s : St) : Lbl → Option St
  | .act i a => if s.free then
      (s.tasks[i]?).bind fun x => (act coroutineMode x a).map fun y => { s with tasks := s.tasks.set i y }
    else none
  | .wake => if s.free && s.pending then
      some { s with pending := false, todo := List.range s.tasks.length }
    else none
  | .visit => match s.todo with
    | [] => none
    | i :: todo => (s.tasks[i]?).map fun x => { s with tasks := s.tasks.set i (visit x), todo := todo }
  | .leave bailout => if s.sweep.isNone && (bailout || s.free && s.idle) then
      some { s with todo := [], sweep := some (List.range s.tasks.length), bailed := bailout }
    else none
  | .unbind => match s.sweep with
    | some (i :: sweep) =>
      (s.tasks[i]?).map fun x => { s with tasks := s.tasks.set i (unbind x), sweep := some sweep }
    | _ => none
  | .dispose => if s.sweep = some [] then some { s with disposed := true } else none
  | .requestCancel i => (s.tasks[i]?).map (requestCancel s i)
  | .sever i => (s.tasks[i]?).map fun x => { s with tasks := s.tasks.set i { x with completed := true } }

def lts (coroutineMode : Bool) (n : Nat) : LTS St Lbl := LTS.ofFn (· = start n) (step coroutineMode)

variable {m : Bool} {s t : St} {i : Nat} {x y : Task} {a : Act}

/-- Whether the coroutine of the task has still to be handed over. -/
def Phase.before : Phase → Bool
  | .running => false
  | .ended => false
  | .settled => false
  | .done => false
  | _ => true

/-- What the phase says of the task; a worker that bails out unbinds at any moment. -/
def Task.Shape (coroutineMode bailed : Bool) (x : Task) : Prop :=
  match x.phase with
  | .bodied => x.bound = false ∧ coroutineMode = false
  | .listed => x.bound = false ∧ x.entry = some (if coroutineMode then .preparing else .coroutine)
  | .bound => bailed = true ∨ x.bound = true
  | .spawned => bailed = true ∨ x.bound = true
  | .linked => bailed = true ∨ x.bound = true ∧ x.entry = some .coroutine
  | .running => bailed = true ∨ x.cancelled = true ∨ x.bound = true ∧ x.entry = some .coroutine
  | .ended => True
  | .settled => coroutineMode = true ∨ x.bound = false
  | _ => x.bound = false

structure Good (m : Bool) (s : St) (i : Nat) (x : Task) : Prop where
  listed : x.bound = true → x.entry.isSome = true ∧ ∀ l, s.sweep = some l → i ∈ l
  shape : x.Shape m s.bailed
  early : x.phase.before = true → x.started = false
  heard : s.bailed = false → x.phase = .running → x.requested = true →
    x.cancelled = true ∨ s.pending = true ∨ i ∈ s.todo
  rest : s.sweep.isSome = true → s.bailed = true ∨ x.phase = .queued ∨ x.phase = .done

structure Inv (m : Bool) (s : St) : Prop where
  task : ∀ i x, s.tasks[i]? = some x → Good m s i x
  disposed : s.disposed = true → s.sweep = some []

theorem Good.act (h : Good m s i x) (hf : s.sweep = none) (ha : act m x a = some y) : Good m s i y := by
  obtain ⟨hl, hs, he, hh, -⟩ := h
  obtain ⟨ph, rq, co, bo, en, st, ca⟩ := x
  have hnew : ∀ l, s.sweep = some l → i ∈ l := by
    rw [hf]
    exact nofun
  have hr : ∀ {q : Prop}, s.sweep.isSome = true → q := by
    rw [hf]
    exact nofun
  unfold Cancellation.act at ha
  split at ha
  · rename_i hp
    cases hp
    cases ha
    exact ⟨hl, hs, he, nofun, hr⟩
  · rename_i hp
    cases hp
    split at ha <;> cases ha
    · exact ⟨hl, hs, nofun, nofun, hr⟩
    · exact ⟨hl, hs, he, nofun, hr⟩
  · rename_i hp
    cases hp
    cases ha
    exact ⟨hl, hs, nofun, nofun, hr⟩
  · rename_i hp
    cases hp
    split at ha <;> cases ha
    refine ⟨fun _ => ⟨rfl, hnew⟩, ⟨hs, ?_⟩, he, nofun, hr⟩
    rw [if_pos ‹_›]
  · rename_i ok hp
    cases hp
    split at ha <;> cases ha
    cases ok
    · exact ⟨hl, hs, he, nofun, hr⟩
    · exact ⟨hl, ⟨hs, eq_false_of_ne_true ‹_›⟩, he, nofun, hr⟩
  · rename_i hp
    cases hp
    cases ha
    refine ⟨fun _ => ⟨rfl, hnew⟩, ⟨hs.1, ?_⟩, he, nofun, hr⟩
    rw [hs.2]
    rfl
  · rename_i hp
    cases hp
    cases ha
    obtain ⟨hb, hn⟩ := hs
    unfold Cancellation.bind
    split
    · split
      · exact ⟨fun h => absurd (hb.symm.trans h) nofun, hb, he, nofun, hr⟩
      · exact ⟨fun h => absurd (hb.symm.trans h) nofun, .inr (.inl rfl), nofun, fun _ _ _ => .inl rfl, hr⟩
    · have hlisted : en.isSome = true := by rw [show en = _ from hn]; rfl
      cases m
      · exact ⟨fun _ => ⟨hlisted, hnew⟩, .inr (.inr ⟨rfl, hn⟩), nofun, fun _ _ hq => absurd hq ‹_›, hr⟩
      · exact ⟨fun _ => ⟨hlisted, hnew⟩, .inr rfl, he, nofun, hr⟩
  · rename_i hp
    cases hp
    cases ha
    exact ⟨hl, hs, nofun, nofun, hr⟩
  · rename_i ok hp
    cases hp
    split at ha <;> cases ha
    · exact ⟨hl, hs, he, nofun, hr⟩
    · exact ⟨nofun, rfl, he, nofun, hr⟩
  · rename_i hp
    cases hp
    cases ha
    exact ⟨hl, hs, nofun, nofun, hr⟩
  · rename_i hp
    cases hp
    cases ha
    exact ⟨fun _ => ⟨rfl, hnew⟩, hs.imp_right fun hb => ⟨hb, rfl⟩, he, nofun, hr⟩
  · rename_i hp
    cases hp
    cases ha
    exact ⟨hl, hs.imp_right .inr, nofun, fun _ _ hq => .inl (Bool.or_eq_true_iff.2 (.inr hq)), hr⟩
  · rename_i hp
    cases hp
    split at ha
    · cases ha
    · split at ha <;> cases ha
      · exact ⟨hl, trivial, nofun, nofun, hr⟩
      · exact ⟨hl, hs, nofun, hh, hr⟩
  · rename_i hp
    cases hp
    split at ha <;> cases ha
    exact ⟨hl, trivial, nofun, nofun, hr⟩
  · rename_i hp
    cases hp
    split at ha <;> cases ha
    exact ⟨hl, .inl ‹_›, nofun, nofun, hr⟩
  · rename_i hp
    cases hp
    split at ha <;> cases ha
    exact ⟨nofun, rfl, nofun, nofun, hr⟩
  · rename_i hp
    cases hp
    split at ha <;> cases ha
    exact ⟨nofun, .inr rfl, nofun, nofun, hr⟩
  · rename_i hp
    cases hp
    split at ha <;> cases ha
    exact ⟨hl, hs.resolve_left ‹_›, nofun, nofun, hr⟩
  · cases ha

theorem Task.Shape.cancelled {b : Bool} (h : x.Shape m b) : { x with cancelled := true }.Shape m b := by
  obtain ⟨ph, rq, co, bo, en, st, ca⟩ := x
  cases ph with
  | running => exact .inr (.inl rfl)
  | _ => exact h

theorem Good.visit (h : Good m s i x) : Good m s i (visit x) := by
  unfold Cancellation.visit
  split
  · exact { h with shape := h.shape.cancelled, heard := fun _ _ _ => .inl rfl }
  · exact h

/-- One task changes. -/
theorem Inv.set (h : Inv m s) (hx : s.tasks[i]? = some x) (ht : t.tasks = s.tasks.set i y)
    (hd : t.disposed = true → t.sweep = some []) (hy : Good m t i y)
    (ho : ∀ j z, j ≠ i → Good m s j z → Good m t j z) : Inv m t where
  task j z hz := by grind [h.task]
  disposed := hd

/-- A task that is not on its way may lose its trigger, and every task when the worker bails out. -/
theorem Task.Shape.unbound {b : Bool} (h : x.Shape m b) (hb : b = true ∨ x.phase = .queued ∨ x.phase = .done) :
    { x with bound := false }.Shape m b := by
  obtain ⟨ph, rq, co, bo, en, st, ca⟩ := x
  rcases hb with hb | ⟨⟨⟩⟩ | ⟨⟨⟩⟩
  · grind [Task.Shape]
  · rfl
  · rfl

theorem Good.unbind {l : List Nat} (h : Good m s i x) (hs : s.sweep = some (i :: l)) :
    Good m { s with sweep := some l } i (unbind x) := by
  have hrest := h.rest (by rw [hs]; rfl)
  unfold Cancellation.unbind
  split
  · exact { h with listed := nofun, shape := h.shape.unbound hrest, rest := fun _ => hrest }
  · rename_i hn
    exact { h with listed := fun hb => absurd (h.listed hb).1 hn, rest := fun _ => hrest }

/-- The worker comes to its end. -/
theorem Good.leave {b : Bool} {l : List Nat} (h : Good m s i x) (hi : i ∈ l)
    (hb : b = true ∨ x.phase = .queued ∨ x.phase = .done) :
    Good m { s with todo := [], sweep := some l, bailed := b } i x where
  listed hx := ⟨(h.listed hx).1, by rintro _ ⟨⟩; exact hi⟩
  shape := by
    have hs := h.shape
    obtain ⟨ph, rq, co, bo, en, st, ca⟩ := x
    rcases hb with rfl | ⟨⟨⟩⟩ | ⟨⟨⟩⟩
    · cases ph with
      | bound => exact .inl rfl
      | spawned => exact .inl rfl
      | linked => exact .inl rfl
      | running => exact .inl rfl
      | _ => exact hs
    · exact hs
    · exact hs
  early := h.early
  heard hf hp := by grind
  rest _ := hb

/-- A running task that is listed, or has been cancelled. -/
theorem Good.running (h : Good m s i x) (hb : s.bailed = false) (hp : x.phase = .running) :
    x.cancelled = true ∨ x.bound = true ∧ x.entry = some .coroutine := by
  have hs := h.shape
  rw [Task.Shape, hp] at hs
  exact hs.resolve_left (by rw [hb]; nofun)

theorem visit_cancels (h : Good m s i x) (hb : s.bailed = false) (hp : (visit x).phase = .running)
    (hq : (visit x).requested = true) : (visit x).cancelled = true := by
  unfold visit at hp hq ⊢
  split
  · rfl
  · grind [h.running]

theorem inv_inductive (m : Bool) (n : Nat) : (lts m n).Inductive (Inv m) where
  init s hs := by
    cases hs
    refine ⟨fun i x hx => ?_, nofun⟩
    rw [List.eq_of_mem_replicate (List.mem_of_getElem? hx)]
    exact ⟨nofun, rfl, fun _ => rfl, nofun, nofun⟩
  step s l t h hs := by
    have hs : step m s l = some t := hs
    cases l with
    | act i a =>
      simp only [step] at hs
      split at hs
      · rename_i hf
        obtain ⟨x, hx, hs⟩ := Option.bind_eq_some_iff.1 hs
        obtain ⟨y, hy, rfl⟩ := Option.map_eq_some_iff.1 hs
        have hf : s.sweep = none := by simpa [St.free] using (Bool.and_eq_true_iff.1 hf).2
        exact h.set hx rfl h.disposed { (h.task i x hx).act hf hy with } fun j z _ hz => { hz with }
      · cases hs
    | wake =>
      simp only [step] at hs
      split at hs <;> cases hs
      refine ⟨fun i x hx => ?_, h.disposed⟩
      refine { h.task i x hx with heard := fun _ _ _ => .inr (.inr ?_) }
      exact List.mem_range.2 (List.getElem?_eq_some_iff.1 hx).1
    | visit =>
      simp only [step] at hs
      split at hs
      · cases hs
      · rename_i i todo htodo
        obtain ⟨x, hx, rfl⟩ := Option.map_eq_some_iff.1 hs
        have hg := h.task i x hx
        refine h.set hx rfl h.disposed
          { hg.visit with heard := fun hb hp hq => .inl (visit_cancels hg hb hp hq) } fun j z hj hz => ?_
        refine { hz with heard := fun hb hp hq => (hz.heard hb hp hq).imp_right (Or.imp_right fun hm => ?_) }
        rw [htodo] at hm
        exact (List.mem_cons.1 hm).resolve_left hj
    | leave b =>
      simp only [step] at hs
      split at hs <;> cases hs
      rename_i hc
      refine ⟨fun i x hx => (h.task i x hx).leave (List.mem_range.2 (List.getElem?_eq_some_iff.1 hx).1) ?_, ?_⟩
      · grind [St.idle]
      · intro hd
        have hd := h.disposed hd
        simp [hd] at hc
    | unbind =>
      simp only [step] at hs
      split at hs
      · rename_i i l hsw
        obtain ⟨x, hx, rfl⟩ := Option.map_eq_some_iff.1 hs
        refine h.set hx rfl (fun hd => ?_) { (h.task i x hx).unbind hsw with } fun j z hj hz => ?_
        · exact absurd (hsw.symm.trans (h.disposed hd)) nofun
        · refine { hz with listed := fun hb => ⟨(hz.listed hb).1, ?_⟩, rest := fun _ => hz.rest (by rw [hsw]; rfl) }
          rintro _ ⟨⟩
          exact (List.mem_cons.1 ((hz.listed hb).2 _ hsw)).resolve_left hj
      · cases hs
    | dispose =>
      simp only [step] at hs
      split at hs <;> cases hs
      exact ⟨fun i x hx => { h.task i x hx with }, fun _ => ‹_›⟩
    | requestCancel i =>
      obtain ⟨x, hx, rfl⟩ := Option.map_eq_some_iff.1 hs
      unfold requestCancel
      split
      · exact h
      · have hg := h.task i x hx
        refine h.set hx rfl h.disposed { hg with heard := fun hb hp _ => ?_ } fun j z _ hz => ?_
        · refine (hg.running hb hp).imp_right fun hx => .inl ?_
          rw [hx.1, Bool.or_true]
        · refine { hz with heard := fun hb hp hq => (hz.heard hb hp hq).imp_right (Or.imp_left fun hpend => ?_) }
          rw [hpend, Bool.true_or]
    | sever i =>
      obtain ⟨x, hx, rfl⟩ := Option.map_eq_some_iff.1 hs
      exact h.set hx rfl h.disposed { h.task i x hx with } fun j z _ hz => { hz with }

/-- Asked for before it was handed to the scheduler: it will not run. -/
def Stopped (x : Task) : Prop :=
  x.requested = true ∧ x.started = false ∧ (x.phase = .running → x.cancelled = true)

theorem Stopped.act (h : Stopped x) (ha : act m x a = some y) : Stopped y := by
  obtain ⟨ph, rq, co, bo, en, st, ca⟩ := x
  obtain ⟨hq, hst, hc⟩ := h
  unfold Cancellation.act at ha
  split at ha
  case h_5 ok hp =>
    split at ha <;> cases ha
    exact ⟨hq, hst, by cases ok <;> exact nofun⟩
  case h_7 =>
    cases ha
    unfold Cancellation.bind
    rw [if_pos hq]
    split
    · exact ⟨hq, hst, nofun⟩
    · exact ⟨hq, hst, fun _ => rfl⟩
  case h_12 =>
    cases ha
    exact ⟨hq, hst, fun _ => Bool.or_eq_true_iff.2 (.inr hq)⟩
  case h_13 hp =>
    rw [if_neg (by rw [hst]; nofun), if_pos (hc hp)] at ha
    cases ha
    exact ⟨hq, hst, nofun⟩
  case h_19 => cases ha
  all_goals (try split at ha) <;> cases ha <;> exact ⟨hq, hst, nofun⟩

/-- What all tasks keep by themselves, a task keeps. -/
theorem set_keeps {P : Task → Prop} {j : Nat} (h : ∀ z, s.tasks[i]? = some z → P z) (hx : s.tasks[j]? = some x)
    (hP : P x → P y) : ∀ z, (s.tasks.set j y)[i]? = some z → P z := by
  intro z hz
  by_cases hij : j = i
  · grind
  · rw [List.getElem?_set_ne hij] at hz
    exact h z hz

theorem step_stopped {l : Lbl} (h : ∀ x, s.tasks[i]? = some x → Stopped x) (hs : step m s l = some t) :
    ∀ x, t.tasks[i]? = some x → Stopped x := by
  cases l with
  | act j a =>
    simp only [step] at hs
    split at hs
    · obtain ⟨x, hx, hs⟩ := Option.bind_eq_some_iff.1 hs
      obtain ⟨y, hy, rfl⟩ := Option.map_eq_some_iff.1 hs
      exact set_keeps h hx fun hst => hst.act hy
    · cases hs
  | wake =>
    simp only [step] at hs
    split at hs <;> cases hs
    exact h
  | visit =>
    simp only [step] at hs
    split at hs
    · cases hs
    · obtain ⟨x, hx, rfl⟩ := Option.map_eq_some_iff.1 hs
      refine set_keeps h hx fun hst => ?_
      unfold visit
      split
      · exact ⟨hst.1, hst.2.1, fun _ => rfl⟩
      · exact hst
  | leave b =>
    simp only [step] at hs
    split at hs <;> cases hs
    exact h
  | unbind =>
    simp only [step] at hs
    split at hs
    · obtain ⟨x, hx, rfl⟩ := Option.map_eq_some_iff.1 hs
      refine set_keeps h hx fun hst => ?_
      unfold unbind
      split <;> exact hst
    · cases hs
  | dispose =>
    simp only [step] at hs
    split at hs <;> cases hs
    exact h
  | requestCancel j =>
    obtain ⟨x, hx, rfl⟩ := Option.map_eq_some_iff.1 hs
    unfold requestCancel
    split
    · exact h
    · exact set_keeps h hx fun hst => ⟨rfl, hst.2⟩
  | sever j =>
    obtain ⟨x, hx, rfl⟩ := Option.map_eq_some_iff.1 hs
    exact set_keeps h hx id

/-- **A cancellation is not lost.** A task whose consumer has asked for its cancellation before the answer never runs
user code, or its coroutine is cancelled, or its body has ended, or the callback that cancels it is still to come (a
worker that has bailed out runs nothing). A state that is bound to a worker's trigger is listed there, and the trigger
has not been disposed of. -/
theorem cancellation_not_lost {n : Nat} (hr : (lts m n).Reachable s) (hx : s.tasks[i]? = some x) :
    (x.requested = true → s.bailed = false →
      (∀ ls t, (lts m n).Run s ls t → ∀ y, t.tasks[i]? = some y → y.started = false) ∨ x.cancelled = true ∨
      x.phase = .ended ∨ x.phase = .settled ∨ x.phase = .done ∨
      x.phase = .running ∧ x.entry = some .coroutine ∧ (s.pending = true ∨ i ∈ s.todo)) ∧
    (x.bound = true → x.entry.isSome = true ∧ s.disposed = false) := by
  have hI := (inv_inductive m n).reachable s hr
  have hg := hI.task i x hx
  refine ⟨fun hq hb => ?_, fun hbound => ⟨(hg.listed hbound).1, eq_false_of_ne_true fun hd => ?_⟩⟩
  · by_cases hbefore : x.phase.before = true
    · refine .inl fun ls t hrun y hy => ?_
      have hst : ∀ z, s.tasks[i]? = some z → Stopped z := by
        intro z hz
        cases hx.symm.trans hz
        refine ⟨hq, hg.early hbefore, fun hp => ?_⟩
        rw [hp] at hbefore
        cases hbefore
      exact (hrun.keeps (P := fun t => ∀ z, t.tasks[i]? = some z → Stopped z) (fun _ _ _ h hs => step_stopped h hs)
        hst y hy).2.1
    · refine .inr ?_
      cases hp : x.phase with
      | running => grind [hg.running, hg.heard]
      | ended => exact .inr (.inl rfl)
      | settled => exact .inr (.inr (.inl rfl))
      | done => exact .inr (.inr (.inr (.inl rfl)))
      | _ =>
        rw [hp] at hbefore
        exact absurd rfl hbefore
  · have hmem := (hg.listed hbound).2 _ (hI.disposed hd)
    cases hmem

theorem cancellation_not_lost_bound : ∃ s x, (lts true 1).Reachable s ∧ s.tasks[0]? = some x ∧ x.phase = .bound ∧
    (∀ ls t, (lts true 1).Run s ls t → ∀ y, t.tasks[0]? = some y → y.started = false) ∧ s.disposed = false := by
  obtain ⟨s, hr, hx, hb⟩ := LTS.exists_from (f := step true)
    (P := fun s : St => s.tasks[0]? = some ⟨.bound, true, false, true, some .preparing, false, false⟩ ∧ s.bailed = false)
    (start 1) [.act 0 .receive, .act 0 .check, .act 0 .list, .act 0 .bind, .requestCancel 0] (by decide +kernel)
  obtain ⟨h, hl⟩ := cancellation_not_lost hr hx
  exact ⟨s, _, hr, hx, rfl, (h rfl hb).resolve_right (by simp), (hl rfl).2⟩

end PhpAsync.L2.ThreadPool.Cancellation
