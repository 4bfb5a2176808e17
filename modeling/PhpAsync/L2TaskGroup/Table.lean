import Mathlib.Data.List.Forall2
import Mathlib.Data.List.Nodup
import PhpAsync.L2TaskGroup.Steps

/-!
# `Async\TaskGroup`: the table of tasks

One hash table holds the tasks in all their states, and two counters run beside it.
`Table` ties them together: the running entries are the coroutines whose callback is
still to come, `active_coroutines` counts these, `pending_count` the pending entries,
and no key is there twice.

The last part rests on `task_group_do_spawn`, which looks the key up before it
suspends the caller and inserts it afterwards with an `add_new` that assumes its
absence: of two callers that wait with one key both insert it
(`duplicate_key_inserted`). From then on a callback finds the wrong entry. `Fresh`
keeps the runs in which a spawner that resumes inserts a key that is not there, and
`keys_unique` is what holds over these.
-/
namespace PhpAsync.L2.TaskGroup

open PhpAsync.Core PhpAsync.L1

/-! ## Lists of entries -/

def Entry.coro (e : Entry) : Coro := ⟨e.call, e.key⟩

/-- The coroutines of the running entries. -/
def runs (l : List Entry) : List Coro := (l.filter fun e => e.task.isRunning).map Entry.coro

theorem runs_append (a b : List Entry) : runs (a ++ b) = runs a ++ runs b := by
  simp [runs]

variable {x : Entry}

theorem runs_cons_running (h : x.task = .running) (l : List Entry) :
    runs (x :: l) = x.coro :: runs l := by
  simp [runs, h, Task.isRunning]

theorem runs_cons_other (h : x.task.isRunning = false) (l : List Entry) :
    runs (x :: l) = runs l := by
  simp [runs, h]

variable {co : Coro}

theorem mem_runs {l : List Entry} :
    co ∈ runs l ↔ ∃ e ∈ l, e.task = .running ∧ e.coro = co := by
  unfold runs
  simp only [List.mem_map, List.mem_filter]
  constructor
  · rintro ⟨e, ⟨he, hr⟩, rfl⟩
    refine ⟨e, he, ?_, rfl⟩
    cases ht : e.task <;> rw [ht] at hr <;> first | rfl | cases hr
  · rintro ⟨e, he, hr, rfl⟩
    exact ⟨e, ⟨he, by rw [hr]; rfl⟩, rfl⟩

theorem isSettled_false {t : Task} : t.isSettled = false ↔ t = .pending ∨ t = .running := by
  cases t <;> simp [Task.isSettled, Task.isCompleted, Task.isError]

def unsettled (l : List Entry) : List Entry := l.filter fun e => !e.task.isSettled

/-- Settled entries were taken out. -/
structure Eats (l l' : List Entry) : Prop where
  sublist : l'.Sublist l
  unsettled : unsettled l' = unsettled l

namespace Eats

variable {l l' l'' : List Entry}

theorem refl (l : List Entry) : Eats l l := ⟨.refl l, rfl⟩

theorem trans (h : Eats l l') (h' : Eats l' l'') : Eats l l'' :=
  ⟨h'.sublist.trans h.sublist, h'.unsettled.trans h.unsettled⟩

theorem of_settled (h : ∀ e ∈ l, e.task.isSettled = true) (hs : l'.Sublist l) : Eats l l' := by
  have hnil : ∀ {m : List Entry}, m.Sublist l → TaskGroup.unsettled m = [] := by
    intro m hm
    refine List.filter_eq_nil_iff.2 fun e he => ?_
    rw [h e (hm.subset he)]
    exact nofun
  exact ⟨hs, (hnil hs).trans (hnil (.refl l)).symm⟩

theorem delete (a b : List Entry) (hx : x.task.isSettled = true) :
    Eats (a ++ x :: b) (a ++ b) := by
  refine ⟨(List.sublist_cons_self x b).append_left a, ?_⟩
  unfold TaskGroup.unsettled
  rw [List.filter_append, List.filter_append, List.filter_cons_of_neg (by rw [hx]; exact nofun)]

theorem filter_eq (h : Eats l l') {q : Entry → Bool}
    (hq : ∀ e, q e = true → e.task.isSettled = false) : l'.filter q = l.filter q := by
  have hf : ∀ m : List Entry, m.filter q = (TaskGroup.unsettled m).filter q := by
    intro m
    unfold TaskGroup.unsettled
    rw [List.filter_filter]
    refine List.filter_congr fun e _ => ?_
    cases hqe : q e with
    | false => rfl
    | true => rw [hq e hqe]; rfl
  rw [hf l', hf l, h.unsettled]

theorem runs (h : Eats l l') : runs l' = runs l := by
  unfold TaskGroup.runs
  rw [h.filter_eq]
  intro e he
  rw [isSettled_false]
  cases ht : e.task <;> rw [ht] at he <;> first | exact .inr rfl | cases he

theorem pendings (h : Eats l l') :
    (l'.countP fun e => e.task.isPending) = l.countP fun e => e.task.isPending := by
  rw [List.countP_eq_length_filter, List.countP_eq_length_filter, h.filter_eq]
  intro e he
  rw [isSettled_false]
  cases ht : e.task <;> rw [ht] at he <;> first | exact .inl rfl | cases he

/-- Deletion of a key under which there are only settled entries. -/
theorem deleteKey {key : Key} (h : ∀ x ∈ l, x.key = key → x.task.isSettled = true) :
    Eats l (deleteKey key l) := by
  cases hk : hasKey key l with
  | false =>
    rw [deleteKey_of_not_hasKey hk]
    exact .refl l
  | true =>
    obtain ⟨a, x, b, rfl, hx, -, -, hdel⟩ := split_of_hasKey hk
    rw [hdel]
    exact .delete a b (h x (List.mem_append_right a List.mem_cons_self) hx)

end Eats

/-- What a step with label `l` may do to an entry it leaves in the table. -/
inductive Advance (l : Lbl) (e : Entry) : Entry → Prop
  | stays : Advance l e e
  | starts (h : e.task = .pending) : Advance l e { e with task := .running }
  | ends (h : e.task = .running) (out : Outcome) (d : Bool) (hl : l = .complete e.call out d) :
      Advance l e { e with task := out.task }

/-- The starts of pending tasks, without the label. -/
def Starts (x y : Entry) : Prop := y = x ∨ x.task = .pending ∧ y = { x with task := .running }

variable {y : Entry}

theorem Starts.trans {z : Entry} (h : Starts x y) (h' : Starts y z) : Starts x z := by
  rcases h with rfl | ⟨hp, rfl⟩
  · exact h'
  · rcases h' with rfl | ⟨hp', -⟩
    · exact .inr ⟨hp, rfl⟩
    · cases hp'

variable {l : Lbl}

theorem Advance.then_starts {z : Entry} (h : Advance l x y) (h' : Starts y z) :
    Advance l x z := by
  rcases h' with rfl | ⟨hp, rfl⟩
  · exact h
  · cases h with
    | stays => exact .starts hp
    | starts => cases hp
    | ends hr out d hl => cases out <;> cases hp

theorem forall₂_comp {α β γ : Type} {R : α → β → Prop} {S : β → γ → Prop} {T : α → γ → Prop} :
    ∀ {a : List α} {b : List β} {d : List γ}, List.Forall₂ R a b → List.Forall₂ S b d →
    (∀ x y z, R x y → S y z → T x z) → List.Forall₂ T a d
  | _, _, _, .nil, .nil, _ => .nil
  | _, _, _, .cons hx t, .cons hy t', h => .cons (h _ _ _ hx hy) (forall₂_comp t t' h)

theorem exists_of_forall₂_right {α β : Type} {R : α → β → Prop} : ∀ {a : List α} {b : List β},
    List.Forall₂ R a b → ∀ {y : β}, y ∈ b → ∃ x ∈ a, R x y
  | _, _, .cons hx t, y, hy => by
    rcases List.mem_cons.1 hy with rfl | hy
    · exact ⟨_, List.mem_cons_self, hx⟩
    · obtain ⟨x, hm, hr⟩ := exists_of_forall₂_right t hy
      exact ⟨x, List.mem_cons_of_mem _ hm, hr⟩

theorem forall₂_starts_refl (l : List Entry) : List.Forall₂ Starts l l :=
  List.forall₂_same.2 fun _ _ => .inl rfl

theorem drain_starts (c : Cfg) (s : St) : List.Forall₂ Starts s.tasks (drain c s).tasks := by
  refine drain_induct (P := fun t => List.Forall₂ Starts s.tasks t.tasks) (fun t u htu h => ?_)
    (forall₂_starts_refl _)
  obtain ⟨-, -, a, x, b, h1, h2, rfl⟩ := drainStep_cases htu
  rw [fireOneSlotWaiter_eq]
  refine forall₂_comp h ?_ fun _ _ _ => Starts.trans
  rw [h1]
  exact List.rel_append (forall₂_starts_refl a) (.cons (.inr ⟨h2, rfl⟩) (forall₂_starts_refl b))

/-- An entry that was not pending stays. -/
theorem mem_of_starts : ∀ {a b : List Entry}, List.Forall₂ Starts a b → ∀ {x : Entry}, x ∈ a →
    x.task ≠ .pending → x ∈ b
  | _, _, .cons h t, x, hx, hp => by
    rcases List.mem_cons.1 hx with rfl | hx
    · rcases h with rfl | ⟨hp', -⟩
      · exact List.mem_cons_self
      · exact absurd hp' hp
    · exact List.mem_cons_of_mem _ (mem_of_starts t hx hp)

theorem map_eq_of_forall₂ {α β γ : Type} {R : α → β → Prop} {f : α → γ} {g : β → γ} :
    ∀ {a : List α} {b : List β}, List.Forall₂ R a b → (∀ x y, R x y → g y = f x) → b.map g = a.map f
  | _, _, .nil, _ => rfl
  | _, _, .cons h t, hR => by rw [List.map_cons, List.map_cons, hR _ _ h, map_eq_of_forall₂ t hR]

theorem Advance.call (h : Advance l x y) : y.call = x.call := by
  cases h <;> rfl

theorem Advance.key (h : Advance l x y) : y.key = x.key := by
  cases h <;> rfl

theorem fireOneSlotWaiter_calls (s : St) :
    (fireOneSlotWaiter s).spawners.map Spawner.call = s.spawners.map Spawner.call := by
  unfold fireOneSlotWaiter
  split
  · rfl
  · rename_i heq
    rw [heq]
    rfl

theorem drain_spawners (c : Cfg) (s : St) :
    (drain c s).spawners.map Spawner.call = s.spawners.map Spawner.call := by
  refine drain_induct (P := fun t => t.spawners.map Spawner.call = s.spawners.map Spawner.call)
    (fun t u htu h => ?_) rfl
  obtain ⟨-, -, a, x, b, -, -, rfl⟩ := drainStep_cases htu
  exact (fireOneSlotWaiter_calls _).trans h

/-! ## The invariant -/

/-- The numbers of the calls that have a task in the table or are suspended. -/
def St.pendingCalls (s : St) : List Nat := s.tasks.map Entry.call ++ s.spawners.map Spawner.call

/-- The table, the coroutines and the counters agree. -/
structure Table (s : St) : Prop where
  keys : (s.tasks.map Entry.key).Nodup
  calls : s.pendingCalls.Nodup
  bound : ∀ n ∈ s.pendingCalls, n < s.calls
  coros : s.coros.Perm (runs s.tasks)
  active : s.active = s.coros.length
  pendingCount : s.pendingCount = s.pendings % 4294967296

namespace Table

variable {c : Cfg} {s t : St}

theorem create : Table create := by
  constructor <;> first | exact List.nodup_nil | rfl | exact nofun

/-- Settled entries and spawners may go, numbers may be given out. -/
theorem shrink (h : Table s) (htasks : Eats s.tasks t.tasks) (hcoros : t.coros = s.coros)
    (hactive : t.active = s.active) (hpending : t.pendingCount = s.pendingCount)
    (hspawners : (t.spawners.map Spawner.call).Sublist (s.spawners.map Spawner.call))
    (hcalls : s.calls ≤ t.calls) : Table t := by
  have hsub : t.pendingCalls.Sublist s.pendingCalls :=
    (htasks.sublist.map Entry.call).append hspawners
  refine ⟨(htasks.sublist.map Entry.key).nodup h.keys, hsub.nodup h.calls, fun n hn => ?_, ?_, ?_, ?_⟩
  · exact Nat.lt_of_lt_of_le (h.bound n (hsub.subset hn)) hcalls
  · rw [hcoros, htasks.runs]
    exact h.coros
  · rw [hactive, hcoros]
    exact h.active
  · unfold St.pendings
    rw [hpending, htasks.pendings]
    exact h.pendingCount

theorem aside (h : Table s) (ha : Aside c s t) (he : Eats s.tasks t.tasks) : Table t :=
  h.shrink he ha.coros ha.active ha.pendingCount (by rw [ha.spawners]) ha.calls

theorem emit (h : Table s) (e : Ev) : Table (emit s e) :=
  h.shrink (.refl _) rfl rfl rfl (.refl _) (Nat.le_refl _)

theorem finish (h : Table s) : Table (finish s) :=
  h.shrink (.refl _) rfl rfl rfl (.refl _) (Nat.le_refl _)

theorem spawners (h : Table s) {l : List Spawner} (hl : l.map Spawner.call = s.spawners.map Spawner.call) :
    Table { s with spawners := l } :=
  h.shrink (.refl _) rfl rfl rfl (hl ▸ .refl _) (Nat.le_refl _)

theorem fireOneSlotWaiter (h : Table s) : Table (fireOneSlotWaiter s) := by
  rw [fireOneSlotWaiter_eq]
  exact h.spawners (fireOneSlotWaiter_calls s)

/-- Without an active and a pending task every entry is settled. -/
theorem allSettled (h : Table s) (ha : s.active ≤ 0) (hp : s.hasPending = false) :
    ∀ e ∈ s.tasks, e.task.isSettled = true := by
  intro e he
  by_contra hs
  rw [Bool.not_eq_true, isSettled_false] at hs
  rcases hs with hs | hs
  · have := hasPending_false.1 hp e he
    rw [hs] at this
    cases this
  · have hm : e.coro ∈ s.coros := h.coros.mem_iff.2 (mem_runs.2 ⟨e, he, hs, rfl⟩)
    have := List.length_pos_of_mem hm
    have := h.active
    omega

theorem settled (h : Table s) (hs : s.settled = true) : ∀ e ∈ s.tasks, e.task.isSettled = true := by
  simp only [St.settled, Bool.and_eq_true, decide_eq_true_eq, Bool.not_eq_true'] at hs
  exact h.allSettled (by omega) hs.2

/-- An entry goes from pending to running. -/
theorem start (h : Table s) (hst : drainStep c s = some t) : Table t := by
  have hpend := drainStep_pendings hst
  obtain ⟨-, -, a, x, b, h1, h2, rfl⟩ := drainStep_cases hst
  refine Table.fireOneSlotWaiter ⟨?_, ?_, ?_, ?_, ?_, ?_⟩
  · have := h.keys
    rw [h1] at this
    simpa using this
  · grind [h.calls, St.pendingCalls]
  · have := h.bound
    unfold St.pendingCalls at this ⊢
    rw [h1] at this
    simpa using this
  · have := h.coros
    rw [h1, runs_append, runs_cons_other (by rw [h2]; rfl)] at this
    rw [runs_append, runs_cons_running rfl]
    refine (this.append_right _).trans ?_
    rw [List.append_assoc]
    exact (List.perm_append_singleton _ _).append_left _
  · grind [h.active]
  · grind [fireOneSlotWaiter_eq, St.pendings, h.pendingCount]

theorem drain (h : Table s) : Table (drain c s) := drain_induct (fun _ _ hst h => h.start hst) h

/-- The entry a completion callback finds is the one of its coroutine. -/
theorem split_of_coro (h : Table s) (hco : co ∈ s.coros) :
    ∃ a x b, s.tasks = a ++ x :: b ∧ x.task = .running ∧ x.coro = co ∧
      ∀ t, settle co.key t s.tasks = a ++ { x with task := t } :: b := by
  obtain ⟨e, he, hr, rfl⟩ := mem_runs.1 (h.coros.mem_iff.1 hco)
  obtain ⟨a, x, b, h1, hx, -, hset, -⟩ := split_of_hasKey (hasKey_iff.2 ⟨e, he, rfl⟩)
  have hxe : x = e := by grind [h.keys]
  subst hxe
  exact ⟨a, x, b, h1, hr, rfl, hset⟩

theorem ended (h : Table s) (hco : co ∈ s.coros) (out : Outcome) :
    Table (s.ended co out) := by
  obtain ⟨a, x, b, h1, hr, rfl, hset⟩ := h.split_of_coro hco
  have hout : out.task.isRunning = false := by cases out <;> rfl
  have houtp : out.task.isPending = false := by cases out <;> rfl
  unfold St.ended
  rw [hset]
  refine ⟨?_, ?_, ?_, ?_, ?_, ?_⟩
  · have := h.keys
    rw [h1] at this
    simpa using this
  · grind [h.calls, St.pendingCalls]
  · have := h.bound
    unfold St.pendingCalls at this ⊢
    rw [h1] at this
    simpa using this
  · grind [runs_append, runs_cons_running, runs_cons_other, h.coros]
  · grind [h.active]
  · have := h.pendingCount
    unfold St.pendings at this ⊢
    rw [h1, List.countP_append, List.countP_cons_of_neg (by rw [hr]; exact nofun)] at this
    rw [List.countP_append, List.countP_cons_of_neg (by rw [houtp]; exact nofun)]
    exact this

theorem tryComplete (h : Table s) (d : Bool) :
    Table (tryComplete c d s) ∧ Eats s.tasks (tryComplete c d s).tasks := by
  refine tryComplete_rule (P := fun t => Table t ∧ Eats s.tasks t.tasks) d ⟨h, .refl _⟩ fun ha hp => ?_
  have haside := resolveWaiters_aside c d s
  have he := Eats.of_settled (h.allSettled ha hp) haside.tasks
  exact ⟨(h.aside haside he).finish, he⟩

end Table

/-! ## What the waiters take out of the table -/

section Eating

variable {c : Cfg} {s t : St}

theorem eats_consume {key : Key} (h : ∀ x ∈ s.tasks, x.key = key → x.task.isSettled = true) :
    Eats s.tasks (consume c s key).tasks := by
  unfold consume
  split
  · exact .deleteKey h
  · exact .refl _

theorem eats_consumeAll (h : ∀ e ∈ s.tasks, e.task.isSettled = true) :
    Eats s.tasks (consumeAll c s).tasks :=
  .of_settled h (Aside.refl c s).consumeAll.tasks

variable {e : Entry}

/-- With distinct keys a settled entry is the only one under its key. -/
theorem settled_of_key (hk : (s.tasks.map Entry.key).Nodup) (he : e ∈ s.tasks)
    (hs : e.task.isSettled = true) : ∀ x ∈ s.tasks, x.key = e.key → x.task.isSettled = true := by
  intro x hx hkey
  rw [List.inj_on_of_nodup_map hk hx he hkey]
  exact hs

/-- Behind the end of the task `e`. -/
theorem Visit.eats {d g : Bool} {i : Nat} {w : Waiter} (hv : Visit c d (some e) s i w g t)
    (h : ∀ x ∈ s.tasks, x.key = e.key → x.task.isSettled = true) : Eats s.tasks t.tasks := by
  cases hv with
  | race e' ho =>
    cases ho
    exact eats_consume (s := emit s _) h
  | all _ _ ho => cases ho
  | _ => exact .refl _

theorem eats_notifyWaiters (h : ∀ x ∈ s.tasks, x.key = e.key → x.task.isSettled = true)
    (d : Bool) : Eats s.tasks (notifyWaiters c d e s).tasks :=
  notifyWaiters_rule (P := fun t => Eats s.tasks t.tasks)
    (fun _ hv hp => hp.trans (hv.eats fun x hx => h x (hp.sublist.subset hx))) (.refl _)

theorem Goes.eats {it pos : Nat} (hg : Goes c s it pos t) (hk : (s.tasks.map Entry.key).Nodup) :
    Eats s.tasks t.tasks := by
  cases hg with
  | yields e he hs =>
    unfold yieldEntry
    split
    · exact eats_consume (s := setIter (emit s _) it _) (settled_of_key hk (List.mem_of_getElem? he) hs)
    · exact .refl _
  | _ => exact .refl _

/-- Only settled entries are consumed. -/
theorem Turn.eats (ht : Turn c s l t) (h : Table s) : Eats s.tasks t.tasks := by
  cases ht with
  | one _ e he hs => exact eats_consume (s := emit (newCall s) _) (settled_of_key h.keys he hs)
  | all _ _ _ hs => exact eats_consumeAll (s := emit (newCall s) _) (h.settled hs)
  | drop | cleanIterator => rw [removeWaiter_eq]; exact .refl _
  | goes hu hg => exact hu.tasks ▸ hg.eats (hu.tasks.symm ▸ h.keys)
  | _ => exact .refl _

end Eating

/-! ## Steps -/

/-- What a step with label `l` makes of the table: entries advance and, in a set,
settled ones are consumed, or one entry is added behind them. -/
inductive Evolves (c : Cfg) (l : Lbl) (tasks tasks' : List Entry) : Prop
  | advanced (m : List Entry) (ha : List.Forall₂ (Advance l) tasks m) (he : Eats m tasks')
      (hg : c.taskSet = false → tasks' = m)
  | added (x : Entry) (heq : tasks' = tasks ++ [x]) (hx : x.task = .pending ∨ x.task = .running)
      (hcall : x.call ∉ tasks.map Entry.call)

namespace Evolves

variable {c : Cfg} {l : Lbl}

theorem eats {tasks tasks' : List Entry} (he : Eats tasks tasks')
    (hg : c.taskSet = false → tasks' = tasks) : Evolves c l tasks tasks' :=
  .advanced tasks (List.forall₂_same.2 fun _ _ => .stays) he hg

theorem refl (tasks : List Entry) : Evolves c l tasks tasks := eats (.refl _) fun _ => rfl

end Evolves

section Step

variable {c : Cfg} {call : Nat} {own fresh : Prop} {s t u : St} {l : Lbl}

theorem Table.newCall (h : Table s) : Table (newCall s) := h.shrink (.refl _) rfl rfl rfl (.refl _) (Nat.le_succ _)

/-- The number of a call is not in use when it looks for a place. -/
theorem Table.called (h : Table s) (hu : Called s l own u call key) :
    Table u ∧ call ∉ u.pendingCalls ∧ call < u.calls := by
  have hnew : s.calls ∉ s.pendingCalls := fun hm => Nat.lt_irrefl _ (h.bound _ hm)
  cases hu with
  | spawn => exact ⟨h.shrink (.refl _) rfl rfl rfl (.refl _) (Nat.le_succ _), hnew, Nat.lt_succ_self _⟩
  | spawnWithKey => exact ⟨h.newCall, hnew, Nat.lt_succ_self _⟩
  | resumed sp hm =>
    have hperm : s.pendingCalls.Perm
        (sp.call :: St.pendingCalls { s with spawners := s.spawners.erase sp }) := by
      unfold St.pendingCalls
      have := (List.perm_cons_erase hm).map Spawner.call
      exact (this.append_left _).trans List.perm_middle
    exact ⟨h.shrink (.refl _) rfl rfl rfl (List.erase_sublist.map _) (Nat.le_refl _),
      (List.nodup_cons.1 (hperm.nodup_iff.1 h.calls)).1, h.bound _ (hperm.mem_iff.2 List.mem_cons_self)⟩

/-- It adds its task or itself, or it throws. -/
theorem Table.entered (h : Table s) (hcall : call ∉ s.pendingCalls) (hlt : call < s.calls) (hf : fresh)
    (he : Entered c own fresh s call key t) : Table t ∧ Evolves c l s.tasks t.tasks := by
  have hadd : ∀ {m : List Nat}, m.Perm (call :: s.pendingCalls) → m.Nodup ∧ ∀ n ∈ m, n < s.calls := by
    intro m hm
    refine ⟨hm.nodup_iff.2 (List.nodup_cons.2 ⟨hcall, h.calls⟩), fun n hn => ?_⟩
    rcases List.mem_cons.1 (hm.mem_iff.1 hn) with rfl | hn
    · exact hlt
    · exact h.bound n hn
  have htask : ∀ x : Entry, x.call = call →
      ((s.tasks ++ [x]).map Entry.call ++ s.spawners.map Spawner.call).Perm (call :: s.pendingCalls) := by
    intro x hx
    rw [List.map_append, List.append_assoc, ← hx]
    exact List.perm_middle
  have hkeys : hasKey key s.tasks = false → ∀ x : Entry, x.key = key → ((s.tasks ++ [x]).map Entry.key).Nodup := by
    grind [h.keys, hasKey]
  have hc : call ∉ s.tasks.map Entry.call := fun hm => hcall (List.mem_append_left _ hm)
  have hpend := h.pendingCount
  cases he with
  | refused => exact ⟨h.emit _, .refl _⟩
  | waits =>
    have hperm : (s.tasks.map Entry.call ++ (s.spawners ++ [⟨call, key, false, .parked⟩] : List Spawner).map
        Spawner.call).Perm (call :: s.pendingCalls) := by
      rw [List.map_append, ← List.append_assoc]
      exact List.perm_append_singleton _ _
    exact ⟨⟨h.keys, (hadd hperm).1, (hadd hperm).2, h.coros, h.active, hpend⟩, .refl _⟩
  | runs _ hkey =>
    obtain ⟨h1, h2⟩ := hadd (htask ⟨key, call, .running⟩ rfl)
    refine ⟨⟨hkeys (hkey hf) _ rfl, h1, h2, ?_, ?_, ?_⟩, .added _ rfl (.inr rfl) hc⟩
    · dsimp only
      rw [runs_append, runs_cons_running rfl]
      exact h.coros.append_right _
    · grind [h.active]
    · unfold St.pendings at hpend ⊢
      rw [List.countP_append, List.countP_cons_of_neg Bool.false_ne_true]
      exact hpend
  | queued _ hkey =>
    obtain ⟨h1, h2⟩ := hadd (htask ⟨key, call, .pending⟩ rfl)
    refine ⟨⟨hkeys (hkey hf) _ rfl, h1, h2, ?_, h.active, ?_⟩, .added _ rfl (.inl rfl) hc⟩
    · dsimp only
      rw [runs_append, runs_cons_other rfl]
      simpa [runs] using h.coros
    · unfold St.pendings at hpend ⊢
      dsimp only
      rw [List.countP_append, List.countP_cons_of_pos rfl, List.countP_nil]
      omega

/-- The entry that has just ended is settled, and `task_group_drain` leaves it. -/
theorem Table.settled_of_ended (h : Table s) (hco : co ∈ s.coros) (out : Outcome) :
    ∀ y ∈ (TaskGroup.drain c (s.ended co out)).tasks, y.key = co.key → y.task.isSettled = true := by
  have h1 := h.ended hco out
  obtain ⟨a, x, b, hsplit, hr, rfl, hset⟩ := h.split_of_coro hco
  have hx : { x with task := out.task } ∈ (s.ended x.coro out).tasks := by grind [St.ended]
  have hs : out.task.isSettled = true := by cases out <;> rfl
  intro y hy hyk
  obtain ⟨z, hz, hzy⟩ := exists_of_forall₂_right (drain_starts c (s.ended x.coro out)) hy
  rcases hzy with rfl | ⟨hp, rfl⟩
  · exact settled_of_key h1.keys hx hs y hz hyk
  · have := settled_of_key h1.keys hx hs z hz hyk
    rw [hp] at this
    cases this

/-- The entry of a task that has just ended is in the table, with its outcome. -/
theorem ended_mem (ht : Table s) (hco : co ∈ s.coros) (out : Outcome) :
    ⟨co.key, co.call, out.task⟩ ∈ (drain c (s.ended co out)).tasks := by
  obtain ⟨a, x, b, -, -, rfl, hset⟩ := ht.split_of_coro hco
  refine mem_of_starts (drain_starts c (s.ended x.coro out)) ?_ ?_
  · grind [settle, Entry.coro, Outcome.task, drain, St.ended]
  · cases out <;> simp [Outcome.task]

theorem Table.ended_advance (h : Table s) (hco : co ∈ s.coros) (out : Outcome) (d : Bool) :
    List.Forall₂ (Advance (.complete co.call out d)) s.tasks (s.ended co out).tasks := by
  obtain ⟨a, x, b, hsplit, hr, rfl, hset⟩ := h.split_of_coro hco
  have hstay : ∀ m : List Entry, List.Forall₂ (Advance (.complete x.coro.call out d)) m m :=
    fun m => List.forall₂_same.2 fun _ _ => .stays
  unfold St.ended
  rw [hset, hsplit]
  exact List.rel_append (hstay a) (.cons (.ends hr out d rfl) (hstay b))

/-- A completion up to `task_group_try_complete`. -/
theorem Table.told (h : Table s) (hco : co ∈ s.coros) (out : Outcome) (d : Bool) :
    Table (s.told c d co out) ∧ Eats (TaskGroup.drain c (s.ended co out)).tasks (s.told c d co out).tasks := by
  have heats := eats_notifyWaiters (c := c) (e := ⟨co.key, co.call, out.task⟩)
    (h.settled_of_ended (c := c) hco out) d
  exact ⟨(h.ended hco out).drain.aside (told_aside c d s co out) heats, heats⟩

/-- The completion callback moves the entry of its own coroutine. -/
theorem Table.complete (h : Table s) (hco : co ∈ s.coros) (out : Outcome) (d : Bool) :
    Table (onCoroutineComplete c d s co out) ∧
      Evolves c (.complete co.call out d) s.tasks (onCoroutineComplete c d s co out).tasks := by
  obtain ⟨htold, heats⟩ := h.told (c := c) hco out d
  obtain ⟨htable, heats'⟩ := htold.tryComplete (c := c) d
  refine ⟨htable, .advanced _ ?_ (heats.trans heats') fun hc => ?_⟩
  · exact forall₂_comp (h.ended_advance hco out d) (drain_starts c (s.ended co out)) fun _ _ _ =>
      Advance.then_starts
  · exact (tryComplete_group hc d).trans ((told_aside c d s co out).group hc)

theorem Table.seal (h : Table s) (b : Bool) : Table (s.seal b) := by
  refine h.shrink (.refl _) rfl rfl rfl ?_ (Nat.le_refl _)
  show ((s.spawners.map Spawner.fire).map Spawner.call).Sublist _
  rw [List.map_map]
  exact .refl _

/-- **One step on the table.** -/
theorem Table.step (h : Table s) (hf : Fresh c s l) (hst : step c s l = some t) :
    Table t ∧ Evolves c l s.tasks t.tasks := by
  cases step_move hst with
  | spawns hu he =>
    obtain ⟨h', hcall, hlt⟩ := h.called hu
    obtain ⟨ht, hev⟩ := h'.entered (l := l) hcall hlt hf he
    rw [hu.eq.1] at hev
    exact ⟨ht, hev⟩
  | cancelSpawner call =>
    refine ⟨h.spawners ?_, .refl _⟩
    rw [List.map_map]
    refine List.map_congr_left fun sp _ => ?_
    show (if sp.call = call then _ else sp).call = sp.call
    split <;> rfl
  | complete co out d hm => exact h.complete hm out d
  | aside _ ht => exact ⟨h.aside ht.aside (ht.eats h), .eats (ht.eats h) ht.aside.group⟩
  | again => exact ⟨h, .refl _⟩
  | seals _ d b =>
    obtain ⟨h1, h2⟩ := (h.seal b).tryComplete (c := c) d
    exact ⟨h1, .eats h2 fun hc => tryComplete_group hc d⟩
  | late => exact ⟨h.newCall.emit _, .refl _⟩
  | handler k _ hs =>
    have hset : Table { s with due := s.due.set k hs } := h.shrink (.refl _) rfl rfl rfl (.refl _) (Nat.le_refl _)
    exact ⟨hset.emit _, .refl _⟩
  | registers => exact ⟨h.shrink (.refl _) rfl rfl rfl (.refl _) (Nat.le_succ _), .refl _⟩
  | stopped | closeScope => exact ⟨h.shrink (.refl _) rfl rfl rfl (.refl _) (Nat.le_refl _), .refl _⟩

end Step

theorem table_inductive (c : Cfg) : ((lts c).restrict (Fresh c)).Inductive Table where
  init s hi := by
    rw [hi.2]
    exact Table.create
  step _ _ _ h hs := (h.step hs.1 hs.2).1

/-- **Counterexample.** Two callers wait with the key `"a"`; both insert it. The first
one's callback then finds the second one's entry, which has not been started: it gets
a result that is not its own, and the first entry runs for ever. -/
theorem duplicate_key_inserted :
    ∃ s t, (lts ⟨1, 1, false⟩).Reachable s ∧
      s.tasks = [⟨.str "x", 0, .done 0⟩, ⟨.str "y", 1, .done 1⟩, ⟨.str "a", 2, .running⟩,
        ⟨.str "a", 3, .pending⟩] ∧
      step ⟨1, 1, false⟩ s (.complete 2 (.result 7) false) = some t ∧
      t.tasks = [⟨.str "x", 0, .done 0⟩, ⟨.str "y", 1, .done 1⟩, ⟨.str "a", 2, .running⟩,
        ⟨.str "a", 3, .done 7⟩] := by
  obtain ⟨s, t, hr, hst, h1, h2⟩ := exists_run_step 1 1 false (by decide) (by decide)
    [.spawnWithKey (.str "x"), .spawnWithKey (.str "y"), .spawnWithKey (.str "a"),
      .spawnWithKey (.str "a"), .complete 0 (.result 0) false, .runSpawner 2,
      .complete 1 (.result 1) false, .runSpawner 3]
    (.complete 2 (.result 7) false)
    (P := fun s t => s.tasks = [⟨.str "x", 0, .done 0⟩, ⟨.str "y", 1, .done 1⟩,
        ⟨.str "a", 2, .running⟩, ⟨.str "a", 3, .pending⟩] ∧
      t.tasks = [⟨.str "x", 0, .done 0⟩, ⟨.str "y", 1, .done 1⟩, ⟨.str "a", 2, .running⟩,
        ⟨.str "a", 3, .done 7⟩]) (by decide +kernel)
  exact ⟨s, t, hr, h1, hst, h2⟩

/-- **Unique keys.** In every fresh run no two entries have one key, and a step changes
an entry only from pending to running, or from running to the outcome of its own
coroutine, until the set consumes it. -/
theorem keys_unique (c : Cfg) (s : St) (hr : ((lts c).restrict (Fresh c)).Reachable s) :
    (s.tasks.map Entry.key).Nodup ∧
    ∀ l t, Fresh c s l → step c s l = some t → Evolves c l s.tasks t.tasks := by
  have h := (table_inductive c).reachable s hr
  exact ⟨h.keys, fun l t hf hst => (h.step hf hst).2⟩

/-- A caller that waited inserts its own key behind the others, and the entry that
was waiting in the table has been started. -/
theorem keys_unique_resumed :
    ∃ s : St, s.tasks = [⟨.str "x", 0, .done 0⟩, ⟨.int 0, 1, .running⟩, ⟨.str "a", 2, .pending⟩] ∧
      (s.tasks.map Entry.key).Nodup := by
  obtain ⟨s, hr, hp⟩ := exists_restricted_run (Fresh ⟨1, 1, false⟩) 1 1 false (by decide) (by decide)
    [.spawnWithKey (.str "x"), .spawn, .spawnWithKey (.str "a"), .complete 0 (.result 0) false,
      .runSpawner 2]
    (P := fun s => s.tasks = [⟨.str "x", 0, .done 0⟩, ⟨.int 0, 1, .running⟩, ⟨.str "a", 2, .pending⟩])
    (by decide +kernel)
  exact ⟨s, hp, (keys_unique ⟨1, 1, false⟩ s hr).1⟩

end PhpAsync.L2.TaskGroup
