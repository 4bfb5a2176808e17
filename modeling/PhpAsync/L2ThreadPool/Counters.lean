import Mathlib.Algebra.BigOperators.Group.List.Basic
import Mathlib.Algebra.Order.BigOperators.Group.List
import Mathlib.Algebra.Ring.Int.Defs
import PhpAsync.Core.LTS

/-!
# The counters of a thread pool

`pending_count` and `running_count` are updated apart from the channel operation they count:
`submit()` counts a task after it was sent, a worker and a drain after they took it. Every
access is a step of its own. A task is followed through the threads that have it, so there
are as many workers as tasks are under way.

**Hypothesis** (`Ordered`): a task is taken out of the channel only once its `submit()` has
counted it, and an engine call that fails leaves an exception.

**Results.**
* `act_share`: an access changes a counter as it changes the task's share of it.
* `counters_are_exact`, and `counters_go_wrong` without the hypothesis.
-/
namespace PhpAsync.L2.ThreadPool.Counters

open PhpAsync.Core

inductive Place where
  | queued
  /-- a worker has it; `pending_count` is still to be decremented -/
  | received
  /-- `running_count` is still to be incremented -/
  | begun
  | running
  /-- coroutine mode: `pool_task_dispose` will end it -/
  | spawned
  /-- off `running_count`; `settles`: its future will be answered -/
  | left (settles : Bool)
  | settled
  /-- taken by a drain, which answers it and then decrements `pending_count` -/
  | popped
  | drained
  deriving DecidableEq, Repr

structure Task where
  /-- `submit()` has incremented `pending_count` -/
  counted : Bool
  place : Place
  deriving DecidableEq, Repr

structure St where
  tasks : List Task
  closed : Bool
  pending : Int
  running : Int
  deriving DecidableEq, Repr

/-- What the worker's turn finds: the flags it reads and whether each call succeeds;
`exception`: one is pending where a call has failed. -/
structure Answers where
  internal : Bool
  cancelRequested : Bool
  workerCancel : Bool
  closure : Bool
  callable : Bool
  poolScope : Bool
  bound : Bool
  spawned : Bool
  taskScope : Bool
  body : Bool
  exception : Bool

/-- How the worker's turn with a task ends: `none`, the task goes on as a coroutine; else the
worker decrements `running_count`, and answers the future or not.
mirrors src/thread_pool.c:410-740 -/
def turn (coroutineMode : Bool) (a : Answers) : Option Bool :=
  if a.internal then some true
  else if a.cancelRequested then some true
  else if !a.workerCancel then some true
  else if !a.closure then some true
  else if !a.callable then some a.exception
  else if coroutineMode then
    if !a.poolScope then some a.exception
    else if !a.bound then some true
    else if a.spawned then none
    else some a.exception
  else if !a.taskScope then some a.exception
  else if !a.body then some a.exception
  else some true

inductive Act where
  | count
  | receive
  | begin
  | run
  | turn (a : Answers)
  | dispose
  | settle
  | drain
  | drained

/-- An access: the task after it, and what it adds to the two counters.
mirrors src/thread_pool.c:396-408, 1060-1069, 1636-1682, 1940 -/
def act (coroutineMode : Bool) (x : Task) : Act → Option (Task × Int × Int)
  | .count => if x.counted then none else some ({ x with counted := true }, 1, 0)
  | .receive => if x.place = .queued then some ({ x with place := .received }, 0, 0) else none
  | .begin => if x.place = .received then some ({ x with place := .begun }, -1, 0) else none
  | .run => if x.place = .begun then some ({ x with place := .running }, 0, 1) else none
  | .turn a =>
    if x.place = .running then
      match turn coroutineMode a with
      | none => some ({ x with place := .spawned }, 0, 0)
      | some settles => some ({ x with place := .left settles }, 0, -1)
    else none
  | .dispose => if x.place = .spawned then some ({ x with place := .left true }, 0, -1) else none
  | .settle => if x.place = .left true then some ({ x with place := .settled }, 0, 0) else none
  | .drain => if x.place = .queued then some ({ x with place := .popped }, 0, 0) else none
  | .drained => if x.place = .popped then some ({ x with place := .drained }, -1, 0) else none

def St.inChannel (s : St) : Nat := s.tasks.countP (·.place = .queued)

inductive Lbl where
  /-- the send of `submit()` succeeds -/
  | send
  | on (k : Nat) (a : Act)
  | close

/-- The channel is a FIFO: the oldest task is taken. -/
def St.first (s : St) : Option Nat := s.tasks.findIdx? (·.place = .queued)

def Act.takes : Act → Bool
  | .receive | .drain => true
  | _ => false

def step (coroutineMode : Bool) (capacity : Nat) (s : St) : Lbl → Option St
  | .send => if s.closed = false ∧ s.inChannel < capacity then some { s with tasks := s.tasks ++ [⟨false, .queued⟩] } else none
  | .on k a =>
    if a.takes = true → s.first = some k then
      (s.tasks[k]?.bind (act coroutineMode · a)).map fun r =>
        { s with tasks := s.tasks.set k r.1, pending := s.pending + r.2.1, running := s.running + r.2.2 }
    else none
  | .close => some { s with closed := true }

def pool (coroutineMode : Bool) (capacity : Nat) : LTS St Lbl :=
  LTS.ofFn (· = ⟨[], false, 0, 0⟩) (step coroutineMode capacity)

/-- See the module doc. -/
def Ordered (coroutineMode : Bool) (s : St) : Lbl → Prop
  | .on k .receive | .on k .drain => ∀ x ∈ s.tasks[k]?, x.counted = true
  | .on _ (.turn a) => turn coroutineMode a ≠ some false
  | _ => True

instance (m : Bool) (s : St) (l : Lbl) : Decidable (Ordered m s l) := by
  unfold Ordered
  split <;> infer_instance

/-! ## Shares -/

namespace Task

/-- `pending_count` has been decremented for it. -/
def isPast (x : Task) : Bool :=
  match x.place with
  | .begun | .running | .spawned | .left _ | .settled | .drained => true
  | _ => false

def pending (x : Task) : Int := (if x.counted then 1 else 0) - if x.isPast then 1 else 0

def running (x : Task) : Int := if x.place = .running ∨ x.place = .spawned then 1 else 0

/-- A thread is between a channel operation and the update that belongs to it. -/
def between (x : Task) : Bool :=
  !x.counted || decide (x.place = .received) || decide (x.place = .begun) || decide (x.place = .popped)

/-- Its worker has decremented `running_count` and not yet answered its future. -/
def leaving (x : Task) : Bool := decide (x.place = .left true)

/-- Taken by a worker and not settled. -/
def unsettled (x : Task) : Bool :=
  match x.place with
  | .received | .begun | .running | .spawned | .left _ => true
  | _ => false

end Task

def St.unsettled (s : St) : Nat := s.tasks.countP Task.unsettled

variable {m : Bool} {c : Nat} {s t : St}

/-- **An access changes a counter as it changes the task's share of it.** -/
theorem act_share {x y : Task} {a : Act} {p r : Int} (h : act m x a = some (y, p, r)) :
    y.pending = x.pending + p ∧ y.running = x.running + r := by
  cases a <;> simp only [act] at h
  case turn a =>
    obtain ⟨hx, h⟩ := Option.ite_none_right_eq_some.1 h
    cases ht : turn m a <;> rw [ht] at h <;> cases h <;> simp [Task.pending, Task.running, Task.isPast, hx]
  case count =>
    obtain ⟨hx, ⟨⟩⟩ := Option.ite_none_left_eq_some.1 h
    refine ⟨?_, (Int.add_zero _).symm⟩
    have hc : x.counted = false := by simpa using hx
    show 1 - (if x.isPast then 1 else 0) = x.pending + 1
    rw [Task.pending, hc, if_neg Bool.false_ne_true]
    omega
  all_goals
    obtain ⟨hx, ⟨⟩⟩ := Option.ite_none_right_eq_some.1 h
    simp [Task.pending, Task.running, Task.isPast, hx] <;> omega

/-- A step adds a task or is an access to one. -/
theorem step_cases {l : Lbl} (h : step m c s l = some t) :
    (t.tasks = s.tasks ++ [⟨false, .queued⟩] ∧ (t.pending, t.running) = (s.pending, s.running)) ∨
    (∃ k a x y p r, l = .on k a ∧ s.tasks[k]? = some x ∧ act m x a = some (y, p, r) ∧ t.tasks = s.tasks.set k y ∧
      t.pending = s.pending + p ∧ t.running = s.running + r) ∨
    (t.tasks = s.tasks ∧ (t.pending, t.running) = (s.pending, s.running)) := by
  cases l with
  | send =>
    obtain ⟨-, ⟨⟩⟩ := Option.ite_none_right_eq_some.1 h
    exact .inl ⟨rfl, rfl⟩
  | on k a =>
    obtain ⟨-, h⟩ := Option.ite_none_right_eq_some.1 h
    obtain ⟨⟨y, p, r⟩, hr, rfl⟩ := Option.map_eq_some_iff.1 h
    obtain ⟨x, hx, ha⟩ := Option.bind_eq_some_iff.1 hr
    exact .inr (.inl ⟨k, a, x, y, p, r, rfl, hx, ha, rfl, rfl, rfl⟩)
  | close => cases h; exact .inr (.inr ⟨rfl, rfl⟩)

/-! ## Runs -/

/-- The counters are the sums of the shares. -/
structure Sums (s : St) : Prop where
  pending : s.pending = (s.tasks.map Task.pending).sum
  running : s.running = (s.tasks.map Task.running).sum

theorem sum_set {α : Type} (f : α → Int) {l : List α} {k : Nat} {x y : α} {p : Int} (hx : l[k]? = some x)
    (hy : f y = f x + p) : ((l.set k y).map f).sum = (l.map f).sum + p := by
  obtain ⟨hk, rfl⟩ := List.getElem?_eq_some_iff.1 hx
  rw [List.map_set, List.sum_set', dif_pos (by simpa using hk), List.getElem_map, hy]
  omega

theorem sums_inductive : (pool m c).Inductive Sums where
  init s hs := by rw [show s = _ from hs]; exact ⟨rfl, rfl⟩
  step s l t h hs := by
    obtain ⟨ht, he⟩ | ⟨k, a, x, y, p, r, -, hx, ha, ht, hp, hr⟩ | ⟨ht, he⟩ := step_cases hs
    · obtain ⟨hp, hr⟩ := Prod.mk.inj he
      refine ⟨?_, ?_⟩
      · rw [hp, ht, h.pending]; simp [Task.pending, Task.isPast]
      · rw [hr, ht, h.running]; simp [Task.running]
    · obtain ⟨hyp, hyr⟩ := act_share ha
      exact ⟨by rw [hp, ht, h.pending, sum_set _ hx hyp], by rw [hr, ht, h.running, sum_set _ hx hyr]⟩
    · obtain ⟨hp, hr⟩ := Prod.mk.inj he
      exact ⟨by rw [hp, ht, h.pending], by rw [hr, ht, h.running]⟩

/-- A task that left the channel was counted, and its future is or will be answered. -/
def Sound (x : Task) : Prop := (x.place ≠ .queued → x.counted = true) ∧ x.place ≠ .left false

theorem act_sound {x y : Task} {a : Act} {p r : Int} {k : Nat} (h : act m x a = some (y, p, r))
    (hx : s.tasks[k]? = some x) (hg : Ordered m s (.on k a)) (hs : Sound x) : Sound y := by
  obtain ⟨hc, hl⟩ := hs
  cases a <;> simp only [act] at h
  case turn a =>
    obtain ⟨hp, h⟩ := Option.ite_none_right_eq_some.1 h
    have hg' : turn m a ≠ some false := hg
    cases ht : turn m a with
    | none => rw [ht] at h; cases h; exact ⟨fun _ => hc (by simp [hp]), nofun⟩
    | some b =>
      rw [ht] at h; cases h
      refine ⟨fun _ => hc (by simp [hp]), ?_⟩
      rintro ⟨⟩
      exact hg' ht
  case count =>
    obtain ⟨-, ⟨⟩⟩ := Option.ite_none_left_eq_some.1 h
    exact ⟨fun _ => rfl, hl⟩
  case receive | drain =>
    obtain ⟨-, ⟨⟩⟩ := Option.ite_none_right_eq_some.1 h
    exact ⟨fun _ => hg x hx, nofun⟩
  all_goals
    obtain ⟨hp, ⟨⟩⟩ := Option.ite_none_right_eq_some.1 h
    exact ⟨fun _ => hc (by simp [hp]), by simp⟩

theorem sound_inductive : ((pool m c).restrict (Ordered m)).Inductive fun s => ∀ x ∈ s.tasks, Sound x where
  init s hs := by rw [show s = _ from hs]; exact fun x hx => (nomatch hx)
  step s l t h hs z hz := by
    obtain ⟨ht, -⟩ | ⟨k, a, x, y, p, r, rfl, hx, ha, ht, -, -⟩ | ⟨ht, -⟩ := step_cases hs.2 <;> rw [ht] at hz
    · rcases List.mem_append.1 hz with hz | hz
      · exact h z hz
      · rw [List.mem_singleton.1 hz]; exact ⟨fun hn => (hn rfl).elim, nofun⟩
    · rcases List.mem_or_eq_of_mem_set hz with hz | rfl
      · exact h z hz
      · exact act_sound ha hx hs.1 (h x (List.mem_of_getElem? hx))
    · exact h z hz

theorem sum_eq_countP {f : Task → Int} {q : Task → Bool} {l : List Task}
    (h : ∀ x ∈ l, f x = if q x then 1 else 0) : (l.map f).sum = l.countP q := by
  induction l with
  | nil => rfl
  | cons x l ih =>
    rw [List.map_cons, List.sum_cons, h x List.mem_cons_self, ih fun y hy => h y (List.mem_cons_of_mem x hy),
      List.countP_cons]
    split
    · simp; omega
    · simp

/-- **The counters of the pool.** In every run in which a task is taken only after it was
counted, no counter is ever negative. Where no thread is between a channel operation and its
update, `pending_count` is the number of tasks in the channel; and where besides no worker is
about to answer a future, `running_count` is the number of tasks taken and not settled. -/
theorem counters_are_exact (coroutineMode : Bool) (capacity : Nat) (s : St)
    (hr : ((pool coroutineMode capacity).restrict (Ordered coroutineMode)).Reachable s) :
    0 ≤ s.pending ∧ 0 ≤ s.running ∧
      ((∀ x ∈ s.tasks, x.between = false) → s.pending = s.inChannel ∧
        ((∀ x ∈ s.tasks, x.leaving = false) → s.running = s.unsettled)) := by
  have h := sums_inductive.reachable s hr.of_restrict
  have hs := sound_inductive.reachable s hr
  refine ⟨?_, ?_, fun hb => ⟨?_, fun hl => ?_⟩⟩
  · rw [h.pending]
    refine List.sum_nonneg fun n hn => ?_
    obtain ⟨x, hx, rfl⟩ := List.mem_map.1 hn
    have hc := (hs x hx).1
    cases hp : x.isPast with
    | false => simp only [Task.pending, hp]; split <;> simp
    | true =>
      have hq : x.place ≠ .queued := fun hq => by simp [Task.isPast, hq] at hp
      simp [Task.pending, hp, hc hq]
  · rw [h.running]
    refine List.sum_nonneg fun n hn => ?_
    obtain ⟨x, -, rfl⟩ := List.mem_map.1 hn
    unfold Task.running
    split <;> simp
  · rw [h.pending, St.inChannel]
    refine sum_eq_countP fun x hx => ?_
    have hb := hb x hx
    cases hp : x.place <;> simp_all [Task.between, Task.pending, Task.isPast]
  · rw [h.running, St.unsettled]
    refine sum_eq_countP fun x hx => ?_
    have hb := hb x hx
    have hl := hl x hx
    have hn := (hs x hx).2
    cases hp : x.place with
    | left b => cases b <;> simp_all [Task.leaving]
    | _ => simp_all [Task.between, Task.running, Task.unsettled]

def fine : Answers := ⟨false, false, true, true, true, true, true, true, true, true, true⟩

theorem counters_are_exact_two : ∃ s : St, ((pool false 4).restrict (Ordered false)).Reachable s ∧
    s.pending = 1 ∧ s.running = 1 ∧ s.inChannel = 1 ∧ s.unsettled = 1 := by
  obtain ⟨s, hr, hb, hl, hc, hu⟩ := LTS.existsG_from (f := step false 4) (G := Ordered false) ⟨[], false, 0, 0⟩
    [.send, .on 0 .count, .send, .on 0 .receive, .on 1 .count, .on 0 .begin, .on 0 .run]
    (P := fun s => (∀ x ∈ s.tasks, x.between = false) ∧ (∀ x ∈ s.tasks, x.leaving = false) ∧ s.inChannel = 1 ∧
      s.unsettled = 1) (by decide)
  obtain ⟨hp, hrun⟩ := (counters_are_exact false 4 s hr).2.2 hb
  exact ⟨s, hr, by rw [hp, hc]; rfl, by rw [hrun hl, hu]; rfl, hc, hu⟩

/-- **Counterexample.** A worker takes the task and decrements `pending_count` before
`submit()` has incremented it. And a worker that has decremented `running_count` has still to
answer the future. -/
theorem counters_go_wrong :
    (∃ s, (pool false 4).Reachable s ∧ s.pending = -1) ∧
      ∃ s, (pool false 4).Reachable s ∧ (∀ x ∈ s.tasks, x.between = false) ∧ s.running = 0 ∧ s.unsettled = 1 := by
  constructor
  · exact LTS.exists_from _ [.send, .on 0 .receive, .on 0 .begin] (by decide)
  · exact LTS.exists_from _ [.send, .on 0 .count, .on 0 .receive, .on 0 .begin, .on 0 .run, .on 0 (.turn fine)] (by decide)

end PhpAsync.L2.ThreadPool.Counters
