import PhpAsync.L2TaskGroup.Terminal
import PhpAsync.L2TaskGroup.Waiters

/-!
# `Async\TaskSet`: what was delivered is gone

A `TaskSet` is a `TaskGroup` whose entries go when they are delivered. Each join has
two paths: the method finds a task that has ended, or the completion callback finds the
future. `joinAny()` takes the entry out on the first path only, so that a task it has
delivered from the callback is delivered again (`any_delivers_twice`); its rejection
takes out nothing on either path; and of several `joinNext()` futures that wait, each
one gets the same task.

`Exclusive` leaves these out. Over the other runs `delivered_once` holds: no task is
delivered twice, and what was delivered is not in the set. `joinNext()` and `joinAll()`
leave the same set on both paths (`race_paths`, `all_paths`).
-/
namespace PhpAsync.L2.TaskGroup

open PhpAsync.Core PhpAsync.L1

def Ev.delivered : Ev → List Entry
  | .answered _ (.results l) => l
  | .answered _ (.composite l) => l
  | .answered _ (.one e) => [e]
  | .yielded _ e => [e]
  | _ => []

/-- The tasks whose outcome a consumer was given, in order. -/
def delivered (log : List Ev) : List Entry := log.flatMap Ev.delivered

theorem delivered_concat (l : List Ev) {e : Ev} (h : e.delivered = []) : delivered (l ++ [e]) = delivered l := by
  simp [delivered, h]

theorem delivered_deliveries : ∀ log : List Ev, delivered (deliveries log) = delivered log
  | [] => rfl
  | e :: log => by
    have ih := delivered_deliveries log
    show delivered (List.filter Ev.isDelivery (e :: log)) = e.delivered ++ delivered log
    cases he : e.isDelivery with
    | true =>
      rw [List.filter_cons_of_pos he, ← ih]
      rfl
    | false =>
      rw [List.filter_cons_of_neg (by rw [he]; exact nofun), ← ih]
      have hnil : e.delivered = [] := by cases e <;> first | rfl | cases he
      rw [hnil]
      rfl

theorem Quiet.delivered {s t : St} (h : Quiet s t) : delivered t.log = delivered s.log := by
  rw [← delivered_deliveries t.log, h.deliveries, delivered_deliveries]

/-! ## The invariant -/

/-- No task was delivered twice, and what was delivered is not there. -/
structure Once (s : St) : Prop where
  nodup : ((delivered s.log).map Entry.call).Nodup
  bound : ∀ n ∈ (delivered s.log).map Entry.call, n < s.calls
  gone : ∀ n ∈ (delivered s.log).map Entry.call, n ∉ s.pendingCalls

namespace Once

variable {c : Cfg} {s t : St}

theorem create : Once create := ⟨List.nodup_nil, nofun, nofun⟩

/-- Nothing is delivered, and no old task comes back. -/
theorem quiet (h : Once s) (hlog : delivered t.log = delivered s.log) (hcalls : s.calls ≤ t.calls)
    (hsub : ∀ n ∈ t.pendingCalls, n ∈ s.pendingCalls ∨ s.calls ≤ n) : Once t := by
  refine ⟨hlog ▸ h.nodup, fun n hn => ?_, fun n hn hm => ?_⟩
  · rw [hlog] at hn
    exact Nat.lt_of_lt_of_le (h.bound n hn) hcalls
  · rw [hlog] at hn
    rcases hsub n hm with hm | hm
    · exact h.gone n hn hm
    · exact Nat.lt_irrefl _ (Nat.lt_of_lt_of_le (h.bound n hn) hm)

/-- The entries `l` are delivered, and leave the set. -/
theorem deliver (h : Once s) (ht : Table s) {l : List Entry} (hl : l.Sublist s.tasks)
    (hlog : delivered t.log = delivered s.log ++ l) (hcalls : s.calls ≤ t.calls)
    (hsub : ∀ n ∈ t.pendingCalls, n ∈ s.pendingCalls ∧ n ∉ l.map Entry.call) : Once t := by
  have hmem : ∀ n ∈ l.map Entry.call, n ∈ s.pendingCalls :=
    fun n hn => List.mem_append_left _ ((hl.map Entry.call).subset hn)
  have hnodup : (l.map Entry.call).Nodup :=
    (hl.map Entry.call).nodup (List.nodup_append.1 ht.calls).1
  refine ⟨?_, fun n hn => ?_, fun n hn hm => ?_⟩
  · grind [h.nodup, h.gone]
  · rw [hlog, List.map_append, List.mem_append] at hn
    refine Nat.lt_of_lt_of_le ?_ hcalls
    rcases hn with hn | hn
    · exact h.bound n hn
    · exact ht.bound n (hmem n hn)
  · grind [h.gone]

theorem same (h : Once s) (htasks : t.tasks = s.tasks) (hspawners : t.spawners = s.spawners)
    (hlog : delivered t.log = delivered s.log) (hcalls : s.calls ≤ t.calls) : Once t := by
  refine h.quiet hlog hcalls fun n hn => .inl ?_
  unfold St.pendingCalls at hn ⊢
  rw [htasks, hspawners] at hn
  exact hn

variable {co : Coro} {e : Entry} {i : Nat} {q : St × Nat} {w : Waiter}

/-- One entry is delivered, and its key is deleted. -/
theorem one (h : Once s) (ht : Table s) (he : e ∈ s.tasks) {ev : Ev} (hev : ev.delivered = [e])
    (htasks : t.tasks = deleteKey e.key s.tasks) (hspawners : t.spawners = s.spawners) (hlog : t.log = s.log ++ [ev])
    (hcalls : s.calls ≤ t.calls) : Once t := by
  refine h.deliver ht (l := [e]) (List.singleton_sublist.2 he) ?_ hcalls fun n hn => ?_
  · grind [Ev.delivered, delivered]
  -- the entry under its key is the entry itself
  · obtain ⟨a, x, b, h1, hx, -, -, hdel⟩ := split_of_hasKey (hasKey_iff.2 ⟨e, he, rfl⟩)
    have hxe : x = e := by grind [ht.keys]
    subst hxe
    have hperm : s.pendingCalls.Perm (x.call :: t.pendingCalls) := by grind [St.pendingCalls]
    refine ⟨hperm.mem_iff.2 (List.mem_cons_of_mem _ hn), fun hm => ?_⟩
    rw [List.map_singleton, List.mem_singleton] at hm
    exact (List.nodup_cons.1 (hperm.nodup_iff.1 ht.calls)).1 (hm ▸ hn)

/-- Some entries are delivered, and all of them are deleted. -/
theorem bulk (h : Once s) (ht : Table s) {l : List Entry} (hl : l.Sublist s.tasks) {ev : Ev}
    (hev : ev.delivered = l) (htasks : t.tasks = []) (hspawners : t.spawners = s.spawners)
    (hlog : t.log = s.log ++ [ev]) (hcalls : s.calls ≤ t.calls) : Once t := by
  refine h.deliver ht hl ?_ hcalls fun n hn => ?_
  · grind [Ev.delivered, delivered]
  · grind [ht.calls, hl.map, St.pendingCalls]

end Once

/-! ## Completions -/

/-- The futures of `joinNext()` that wait. -/
def races (l : List Waiter) : Nat := l.countP fun w => decide (w.kind = .race)

def noAny (l : List Waiter) : Prop := ∀ w ∈ l, w.kind ≠ .any

instance (l : List Waiter) : Decidable (noAny l) := by
  unfold noAny
  infer_instance

section Callbacks

variable {c : Cfg} {s t u : St} {d g : Bool}

theorem consume_set (hc : c.taskSet = true) (s : St) (key : Key) :
    consume c s key = { s with tasks := deleteKey key s.tasks } := by
  unfold consume
  rw [if_pos hc]

theorem consumeAll_set (hc : c.taskSet = true) (s : St) : consumeAll c s = { s with tasks := [] } := by
  unfold consumeAll
  rw [if_pos hc]

theorem races_swapRemove {l : List Waiter} (hw : l[i]? = some w) :
    races (swapRemove l i) + (if w.kind = .race then 1 else 0) = races l := by
  unfold races
  rw [(swapRemove_perm hw).countP_eq, List.countP_cons]
  simp only [decide_eq_true_eq]

/-- The loop behind the end of a task takes out each `joinNext()` it comes to, -/
theorem Visit.races (hw : s.waiters[i]? = some w) (hv : Visit c d (some e) s i w g t) :
    races t.waiters + (if w.kind = .race then 1 else 0) = races s.waiters := by
  rw [(hv.later hw).2.1]
  cases g with
  | true => exact races_swapRemove hw
  | false =>
    have hk : w.kind ≠ .race := by
      intro hk
      cases hv with
      | skip hr => cases hr hk
      | wake _ _ _ _ _ hk' => cases hk.symm.trans hk'
    rw [if_neg hk]
    rfl

/-- and the entry with it. -/
theorem Visit.tasks (hc : c.taskSet = true) (hv : Visit c d (some e) s i w g t) :
    t.tasks = if w.kind = .race then deleteKey e.key s.tasks else s.tasks := by
  cases hv with
  | race e' ho hk => cases ho; rw [if_pos hk, consume_set hc]; rfl
  | all _ _ ho => cases ho
  | skip hr => rw [if_neg fun hk => nomatch hr hk]
  | any _ _ hk | wake _ _ _ _ _ hk | leave _ _ _ _ _ hk => rw [hk, if_neg nofun]; rfl

theorem Visit.noAny {o : Option Entry} (hw : s.waiters[i]? = some w) (hv : Visit c d o s i w g t)
    (hno : noAny s.waiters) : noAny t.waiters :=
  fun x hx => hno x ((hv.later hw).1.waiters x hx)

/-- The loop behind the end of task `e`: the one future of `joinNext()` has taken it, or
it is still in the set. -/
structure Handing (e : Entry) (s : St) : Prop where
  table : Table s
  once : Once s
  settled : e.task.isSettled = true
  single : races s.waiters = 0 ∨ (races s.waiters ≤ 1 ∧ e ∈ s.tasks)
  any : noAny s.waiters ∨ e.task.isError = true

theorem Handing.visit (hc : c.taskSet = true) (h : Handing e s) (hw : s.waiters[i]? = some w)
    (hv : Visit c d (some e) s i w g t) : Handing e t := by
  have hr := hv.races hw
  have ht := hv.tasks hc
  have haside := hv.aside
  have hany := h.any.imp (hv.noAny hw) id
  have hrest : w.kind ≠ .race → Once t → Handing e t := by
    intro hk ho
    rw [if_neg hk] at hr ht
    refine ⟨h.table.aside haside (ht ▸ .refl _), ho, h.settled, ?_, hany⟩
    rw [ht, ← Nat.add_zero (TaskGroup.races t.waiters), hr]
    exact h.single
  cases hv with
  | race e' ho hk =>
    cases ho
    rw [if_pos hk] at hr ht
    obtain ⟨hle, hmem⟩ : TaskGroup.races s.waiters ≤ 1 ∧ e ∈ s.tasks := h.single.resolve_left (by omega)
    refine ⟨h.table.aside haside ?_, ?_, h.settled, .inl (by omega), hany⟩
    · rw [ht]
      exact Eats.deleteKey (settled_of_key h.table.keys hmem h.settled)
    · rw [consume_set hc]
      exact h.once.one h.table hmem rfl rfl rfl rfl (Nat.le_refl _)
  | any _ ho hk =>
    rcases h.any with hno | herr
    · exact absurd hk (hno w (List.mem_of_getElem? hw))
    · cases (ho e rfl).symm.trans herr
  | all _ _ ho => cases ho
  | skip => exact h
  | wake _ _ _ _ _ hk | leave _ _ _ _ _ hk =>
    exact hrest (by rw [hk]; exact nofun) (h.once.same rfl rfl rfl (Nat.le_refl _))

/-- The loop of `task_group_try_complete` on a set all of whose tasks have ended. -/
structure Closing (s : St) : Prop where
  table : Table s
  once : Once s
  settled : ∀ e ∈ s.tasks, e.task.isSettled = true
  any : noAny s.waiters

theorem Closing.visit (hc : c.taskSet = true) (h : Closing s) (hw : s.waiters[i]? = some w)
    (hv : Visit c d none s i w g t) : Closing t := by
  have haside := hv.aside
  have hclosing : Once t → Closing t := fun ho =>
    ⟨h.table.aside haside (.of_settled h.settled haside.tasks), ho,
      fun x hx => h.settled x (haside.tasks.subset hx), hv.noAny hw h.any⟩
  cases hv with
  | race _ ho => cases ho
  | any _ _ hk => exact absurd hk (h.any w (List.mem_of_getElem? hw))
  | all a l _ _ hl ha =>
    refine hclosing ?_
    rw [consumeAll_set hc]
    exact h.once.bulk h.table hl (by rcases ha with rfl | rfl <;> rfl) rfl rfl rfl (Nat.le_refl _)
  | skip => exact h
  | wake | leave => exact hclosing (h.once.same rfl rfl rfl (Nat.le_refl _))

theorem tryComplete_once (hc : c.taskSet = true) (h : Once s) (ht : Table s) (d : Bool)
    (hok : noAny s.waiters ∨ 0 < s.active ∨ s.hasPending = true) : Once (tryComplete c d s) := by
  refine tryComplete_rule d h fun hact hp => ?_
  have hno : noAny s.waiters := by grind
  have hclosing : Closing (resolveWaiters c d s) :=
    resolveWaiters_rule (fun hw hv hu => hu.visit hc hw hv) ⟨ht, h, ht.allSettled hact hp, hno⟩
  exact hclosing.once.same rfl rfl (Quiet.finish _).delivered (Nat.le_refl _)

/-- The end of a task, up to the loop over the waiters. -/
theorem ended_once (h : Once s) (ht : Table s) (hco : co ∈ s.coros) (out : Outcome) :
    Once (drain c (s.ended co out)) := by
  refine h.quiet (Quiet.ended c s co out).delivered (Quiet.ended c s co out).calls fun n hn => .inl ?_
  have htasks : (drain c (s.ended co out)).tasks.map Entry.call = s.tasks.map Entry.call := by
    have hadv := forall₂_comp (ht.ended_advance hco out false) (drain_starts c (s.ended co out))
      fun _ _ _ => Advance.then_starts
    exact map_eq_of_forall₂ hadv fun _ _ hxy => hxy.call
  have hspawners := drain_spawners c (s.ended co out)
  unfold St.pendingCalls at hn ⊢
  rw [htasks, hspawners] at hn
  exact hn

theorem complete_once (hc : c.taskSet = true) (h : Once s) (ht : Table s) (hco : co ∈ s.coros) (out : Outcome)
    (d : Bool) (hraces : races s.waiters ≤ 1)
    (hany : noAny s.waiters ∨ (out.task.isError = true ∧ (1 < s.active ∨ s.hasPending = true))) :
    Once (onCoroutineComplete c d s co out) := by
  have hq := Quiet.ended c s co out
  have htd : Table (drain c (s.ended co out)) := (ht.ended hco out).drain
  have hstart : Handing ⟨co.key, co.call, out.task⟩ (drain c (s.ended co out)) := by
    refine ⟨htd, ended_once h ht hco out, by cases out <;> rfl, .inr ⟨?_, ended_mem ht hco out⟩, ?_⟩
    · rw [hq.waiters]
      exact hraces
    · rw [hq.waiters]
      exact hany.imp id And.left
  have hloop : Handing ⟨co.key, co.call, out.task⟩ (s.told c d co out) :=
    notifyWaiters_rule (fun hw hv hu => hu.visit hc hw hv) hstart
  rw [onCoroutineComplete_eq]
  refine tryComplete_once hc hloop.once hloop.table d ?_
  rcases hany with hno | ⟨-, hbusy⟩
  · refine .inl (notifyWaiters_rule (P := fun u => noAny u.waiters) (fun hw hv => hv.noAny hw) ?_)
    rw [hq.waiters]
    exact hno
  · exact .inr (Ends.busy_of_occupied ht hco out d hbusy)

end Callbacks

/-! ## Steps -/

/-- A task ends while at most one `joinNext()` waits, and no `joinAny()`, unless the task
fails and another one runs or waits; and no `joinAny()` is rejected at once, or by
closing the set. -/
def Exclusive (s : St) : Lbl → Prop
  | .complete _ out _ =>
    races s.waiters ≤ 1 ∧
      (noAny s.waiters ∨ (out.task.isError = true ∧ (1 < s.active ∨ s.hasPending = true)))
  | .any => s.tasks = [] ∨ (∃ e ∈ s.tasks, e.task.isCompleted = true) ∨ s.settled = false
  | .close _ | .cancel _ _ =>
    s.isSealed = true ∨ noAny s.waiters ∨ 0 < s.active ∨ s.hasPending = true
  | _ => True

instance (s : St) : ∀ l, Decidable (Exclusive s l) := by
  intro l
  apply @Lbl.casesOn (fun l => Decidable (Exclusive s l)) l <;> intros <;> dsimp only [Exclusive] <;> infer_instance

section Step

variable {c : Cfg} {s t u : St} {l : Lbl}

theorem Goes.once {it pos : Nat} (hc : c.taskSet = true) (h : Once s) (ht : Table s) (hg : Goes c s it pos t) :
    Once t := by
  cases hg with
  | yields e he =>
    unfold yieldEntry
    rw [if_pos hc, consume_set hc]
    exact h.one ht (List.mem_of_getElem? he) rfl rfl rfl rfl (Nat.le_refl _)
  | parks => exact h.same rfl rfl rfl (Nat.le_succ _)
  | ends | fails => exact h.same rfl rfl (delivered_concat s.log rfl) (Nat.le_refl _)

theorem Turn.once (hc : c.taskSet = true) (h : Once s) (ht : Table s) (he : Exclusive s l) (hturn : Turn c s l t) :
    Once t := by
  cases hturn with
  | threw => exact h.same rfl rfl (delivered_concat s.log rfl) (Nat.le_succ _)
  | one _ e hmem =>
    rw [consume_set hc]
    exact h.one ht hmem rfl rfl rfl rfl (Nat.le_succ _)
  | all _ _ _ _ hl ha =>
    rw [consumeAll_set hc]
    exact h.bulk ht hl (by rcases ha with rfl | rfl <;> rfl) rfl rfl rfl (Nat.le_succ _)
  | rejected hs hne hno =>
    rcases he with hnil | ⟨e, hmem, hok⟩ | hun
    · exact absurd hnil hne
    · cases (hno e hmem).symm.trans hok
    · cases hs.symm.trans hun
  | waits => exact h.same rfl rfl rfl (Nat.le_succ _)
  | drop | cleanIterator =>
    rw [removeWaiter_eq]
    exact h.same rfl rfl rfl (Nat.le_refl _)
  | @goes _ u _ _ _ hu hg =>
    have hr : Once u ∧ Table u := by
      rw [hu.eq]
      exact ⟨h.same rfl rfl rfl (Nat.le_refl _), ht.shrink (.refl _) rfl rfl rfl (.refl _) (Nat.le_refl _)⟩
    exact hg.once hc hr.1 hr.2
  | cancelIterator => exact h.same rfl rfl rfl (Nat.le_refl _)

theorem Once.spawns {own fresh : Prop} {call : Nat} {key : Key} (h : Once s) (hu : Called s l own u call key)
    (he : Entered c own fresh u call key t) : Once t := by
  have hq := Quiet.spawns hu he
  refine h.quiet hq.delivered hq.calls fun n hn => ?_
  have hin : n ∈ u.pendingCalls ∨ n = call := by cases he <;> grind [St.pendingCalls, emit]
  cases hu with
  | spawn | spawnWithKey => exact hin.imp id fun heq => Nat.le_of_eq heq.symm
  | resumed sp hm => grind [St.pendingCalls]

theorem step_once (hc : c.taskSet = true) (h : Once s) (ht : Table s) (he : Exclusive s l)
    (hst : step c s l = some t) : Once t := by
  cases step_move hst with
  | spawns hu hent => exact h.spawns hu hent
  | cancelSpawner call =>
    refine h.quiet rfl (Nat.le_refl _) fun n hn => .inl ?_
    rcases List.mem_append.1 hn with hn | hn
    · exact List.mem_append_left _ hn
    · obtain ⟨x, hx, rfl⟩ := List.mem_map.1 hn
      obtain ⟨sp, hsp, rfl⟩ := List.mem_map.1 hx
      refine List.mem_append_right _ (List.mem_map.2 ⟨sp, hsp, ?_⟩)
      split <;> rfl
  | complete co out d hm => exact complete_once hc h ht hm out d he.1 he.2
  | aside _ hturn => exact hturn.once hc h ht he
  | again => exact h
  | seals _ d b hl hs =>
    have hseal : Once (s.seal b) := by
      refine h.quiet rfl (Nat.le_refl _) fun n hn => .inl ?_
      have hn : n ∈ s.tasks.map Entry.call ++ (s.spawners.map Spawner.fire).map Spawner.call := hn
      rw [List.map_map] at hn
      exact hn
    have hok : s.isSealed = true ∨ noAny s.waiters ∨ 0 < s.active ∨ s.hasPending = true := by
      rcases hl with ⟨rfl, -⟩ | ⟨_, rfl, -⟩ <;> exact he
    exact tryComplete_once hc hseal (ht.seal b) d (hok.resolve_left (by rw [hs]; exact nofun))
  | late => exact h.same rfl rfl Quiet.late.delivered (Nat.le_succ _)
  | handler _ n => exact h.same rfl rfl (Quiet.handler n).delivered (Nat.le_refl _)
  | registers => exact h.same rfl rfl rfl (Nat.le_succ _)
  | stopped | closeScope => exact h.same rfl rfl rfl (Nat.le_refl _)

end Step

theorem once_inductive {c : Cfg} (hc : c.taskSet = true) :
    ((lts c).restrict fun s l => Fresh c s l ∧ Exclusive s l).Inductive fun s => Table s ∧ Once s where
  init s hi := by
    rw [hi.2]
    exact ⟨Table.create, Once.create⟩
  step s l t h hs := ⟨(h.1.step hs.1.1 hs.2).1, step_once hc h.2 h.1 hs.1.2 hs.2⟩

/-! ## The two paths of a join -/

/-- Another vector of waiters, and numbers given out. -/
def St.withWaiters (ws : List Waiter) (n : Nat) (s : St) : St := { s with waiters := ws, calls := n }

section Paths

variable {c : Cfg} {s : St}

theorem drainStep_withWaiters (ws : List Waiter) (n : Nat) (s : St) :
    drainStep c (s.withWaiters ws n) = (drainStep c s).map (St.withWaiters ws n) := by
  show (if hasSlot c s && !s.scopeClosed then _ else none) = _
  unfold drainStep
  split
  · show (startFirst s.tasks).map _ = _
    cases startFirst s.tasks with
    | none => rfl
    | some p =>
      refine congrArg some ?_
      unfold fireOneSlotWaiter St.withWaiters
      cases s.spawners <;> rfl
  · rfl

theorem drain_withWaiters (ws : List Waiter) (n : Nat) (s : St) :
    drain c (s.withWaiters ws n) = (drain c s).withWaiters ws n :=
  Loop.run_map (drainStep_withWaiters ws n) s.tasks.length s

/-- The loop behind the end of a task leaves no `joinNext()` waiting. -/
theorem notifyWaiters_races (s : St) (e : Entry) (d : Bool) : races (notifyWaiters c d e s).waiters = 0 := by
  -- whoever stands before the loop's position is not a `joinNext()`
  have hpassed : ∀ (j : Nat) (w : Waiter),
      j < (Loop.run (notifyStep c d e) s.waiters.length (s, 0)).2 →
      (notifyWaiters c d e s).waiters[j]? = some w → w.kind ≠ .race := by
    refine Loop.run_induct (P := fun p => ∀ (j : Nat) (w : Waiter), j < p.2 →
      p.1.waiters[j]? = some w → w.kind ≠ .race) ?_ _ (s, 0) fun _ _ hj => by cases hj
    intro ⟨u, i⟩ q hq hp j x hj hx
    obtain ⟨w, g, hw, hv, hi⟩ := notifyStep_visit hq
    have hr := hv.races hw
    rw [(hv.later hw).2.1] at hr hx
    cases g with
    | true =>
      rw [hi] at hj
      rw [if_pos rfl, swapRemove_getElem? hw hj] at hx
      exact hp j x hj hx
    | false => grind
  have hstop := Option.map_eq_none_iff.1 (notify_stops (c := c) (d := d) s e)
  refine List.countP_eq_zero.2 fun w hw => ?_
  obtain ⟨j, hj⟩ := List.mem_iff_getElem?.1 hw
  have h1 := (List.getElem?_eq_some_iff.1 hj).1
  have h2 := List.getElem?_eq_none_iff.1 hstop
  rw [decide_eq_true_eq]
  exact hpassed j w (Nat.lt_of_lt_of_le h1 h2) hj

/-- It takes the entry out if a `joinNext()` waits. -/
theorem notifyWaiters_tasks (hc : c.taskSet = true) (hle : races s.waiters ≤ 1) (e : Entry) (d : Bool) :
    (notifyWaiters c d e s).tasks = if races s.waiters = 0 then s.tasks else deleteKey e.key s.tasks := by
  have hloop : races (notifyWaiters c d e s).waiters ≤ races s.waiters ∧
      (notifyWaiters c d e s).tasks =
        if races (notifyWaiters c d e s).waiters = races s.waiters then s.tasks
        else deleteKey e.key s.tasks := by
    refine notifyWaiters_rule (P := fun u => races u.waiters ≤ races s.waiters ∧ u.tasks =
      if races u.waiters = races s.waiters then s.tasks else deleteKey e.key s.tasks) ?_
      ⟨Nat.le_refl _, (if_pos rfl).symm⟩
    rintro u i w g t hw hv ⟨hu, htasks⟩
    have hr := hv.races hw
    rw [hv.tasks hc]
    split
    · rename_i hk
      rw [if_pos hk] at hr
      rw [if_pos (by omega)] at htasks
      rw [if_neg (by omega), htasks]
      exact ⟨by omega, rfl⟩
    · rename_i hk
      rw [if_neg hk, Nat.add_zero] at hr
      rw [hr]
      exact ⟨hu, htasks⟩
  rw [hloop.2, notifyWaiters_races s]
  simp only [eq_comm]

/-- No future of `joinAll()` waits. -/
def noAll (l : List Waiter) : Prop := ∀ w ∈ l, w.kind ≠ .all ∧ w.kind ≠ .allIgnoreErrors

instance (l : List Waiter) : Decidable (noAll l) := by
  unfold noAll
  infer_instance

/-- `task_group_try_complete` takes out nothing. -/
theorem tryComplete_tasks (hok : noAll s.waiters ∨ 0 < s.active ∨ s.hasPending = true) (d : Bool) :
    (tryComplete c d s).tasks = s.tasks := by
  refine tryComplete_rule (P := fun t => t.tasks = s.tasks) d rfl fun hact hp => ?_
  have hno : noAll s.waiters := by grind
  refine (resolveWaiters_rule (P := fun u => noAll u.waiters ∧ u.tasks = s.tasks) ?_ ⟨hno, rfl⟩).2
  rintro u i w g t hw hv ⟨hu, htasks⟩
  refine ⟨fun x hx => hu x ((hv.later hw).1.waiters x hx), ?_⟩
  cases hv with
  | race _ ho => cases ho
  | all _ _ _ hk => exact (hk.elim (hu w (List.mem_of_getElem? hw)).1 (hu w (List.mem_of_getElem? hw)).2).elim
  | any | skip | wake | leave => exact htasks

/-- The end of a task, with at most one `joinNext()` waiting and no `joinAll()` that it
answers. -/
theorem complete_tasks (hc : c.taskSet = true) (ht : Table s) (hco : co ∈ s.coros) (out : Outcome)
    (d : Bool) (hle : races s.waiters ≤ 1) (hok : noAll s.waiters ∨ 1 < s.active ∨ s.hasPending = true) :
    (onCoroutineComplete c d s co out).tasks =
      if races s.waiters = 0 then (drain c (s.ended co out)).tasks
      else deleteKey co.key (drain c (s.ended co out)).tasks := by
  have hq := Quiet.ended c s co out
  have htasks := notifyWaiters_tasks (c := c) hc (by rw [hq.waiters]; exact hle) ⟨co.key, co.call, out.task⟩ d
  rw [hq.waiters] at htasks
  rw [onCoroutineComplete_eq, tryComplete_tasks ?_ d]
  · exact htasks
  rcases hok with hno | hbusy
  · refine .inl fun w hw => hno w ?_
    rw [← hq.waiters]
    exact (notifyWaiters_later _ _).waiters w hw
  · exact .inr (Ends.busy_of_occupied ht hco out d hbusy)

/-- Behind the end of a task in a set of unsettled ones, only its entry is settled. -/
theorem ended_settled (ht : Table s) (hun : ∀ e ∈ s.tasks, e.task.isSettled = false) (hco : co ∈ s.coros)
    (out : Outcome) {y : Entry} (hy : y ∈ (drain c (s.ended co out)).tasks) (hs : y.task.isSettled = true) :
    y.key = co.key := by
  have hadv := forall₂_comp (ht.ended_advance hco out false) (drain_starts c (s.ended co out))
    fun _ _ _ => Advance.then_starts
  obtain ⟨x, hx, hxy⟩ := exists_of_forall₂_right hadv hy
  cases hxy with
  | stays => cases (hun _ hx).symm.trans hs
  | starts hp => cases hs
  | ends hr out' d' hl =>
    obtain ⟨z, hz, hzr, hzc⟩ := mem_runs.1 (ht.coros.mem_iff.1 hco)
    have hcall : x.call = z.call := by
      injection hl with hcall
      rw [← hcall, ← hzc]
      rfl
    have hxz : x = z := List.inj_on_of_nodup_map (List.nodup_append.1 ht.calls).1 hx hz hcall
    rw [hxz, ← hzc]
    rfl

/-- `joinNext()` on a set with unsettled tasks only waits. -/
theorem race_waits (hun : ∀ e ∈ s.tasks, e.task.isSettled = false) (hne : s.tasks ≠ []) (id : Nat) :
    race c s id = addWaiter s id .race := by
  have hnone : (s.tasks.find? fun e => e.task.isSettled) = none :=
    List.find?_eq_none.2 fun x hx => by rw [hun x hx]; exact nofun
  unfold race
  rw [if_neg (by rw [List.isEmpty_iff]; exact hne), hnone]

/-- `joinNext()` takes the entry of the one task that has settled. -/
theorem race_takes (hc : c.taskSet = true) (he : e ∈ s.tasks) (hs : e.task.isSettled = true)
    (hone : ∀ y ∈ s.tasks, y.task.isSettled = true → y.key = e.key) (id : Nat) :
    (race c s id).tasks = deleteKey e.key s.tasks := by
  unfold race
  rw [if_neg (by rw [List.isEmpty_iff]; exact List.ne_nil_of_mem he)]
  cases hfind : s.tasks.find? fun e => e.task.isSettled with
  | none => exact absurd hs (List.find?_eq_none.1 hfind e he)
  | some y =>
    have hys : y.task.isSettled = true := by simpa using List.find?_some hfind
    dsimp only
    rw [consume_set hc, hone y (List.mem_of_find?_eq_some hfind) hys]
    rfl

/-- `joinNext()` before the first task ends, or after it: the same set. -/
theorem race_paths (hc : c.taskSet = true) (ht : Table s) (hraces : races s.waiters = 0)
    (hun : ∀ e ∈ s.tasks, e.task.isSettled = false) (hco : co ∈ s.coros) (out : Outcome) (d : Bool)
    (hok : noAll s.waiters ∨ 1 < s.active ∨ s.hasPending = true) :
    (onCoroutineComplete c d (race c (newCall s) s.calls) co out).tasks =
      (race c (newCall (onCoroutineComplete c d s co out))
        (onCoroutineComplete c d s co out).calls).tasks := by
  obtain ⟨e, he, -⟩ := mem_runs.1 (ht.coros.mem_iff.1 hco)
  have hmem := ended_mem (c := c) ht hco out
  have hbefore : race c (newCall s) s.calls =
      s.withWaiters (s.waiters ++ [⟨s.calls, .race⟩]) (s.calls + 1) :=
    race_waits (s := newCall s) hun (List.ne_nil_of_mem he) s.calls
  rw [hbefore]
  -- before: the future waits, and takes the entry
  have hone : races (s.waiters ++ [⟨s.calls, .race⟩]) = 1 := by
    unfold races at hraces ⊢
    rw [List.countP_append, hraces]
    rfl
  have htw : Table (s.withWaiters (s.waiters ++ [⟨s.calls, .race⟩]) (s.calls + 1)) :=
    ht.shrink (.refl _) rfl rfl rfl (.refl _) (Nat.le_succ _)
  have hokw : noAll (s.waiters ++ [⟨s.calls, .race⟩]) ∨ 1 < s.active ∨ s.hasPending = true := by
    refine hok.imp (fun hno w hw => ?_) id
    rcases List.mem_append.1 hw with hw | hw
    · exact hno w hw
    · rw [List.mem_singleton.1 hw]
      exact ⟨nofun, nofun⟩
  have hleft := complete_tasks (c := c) hc htw hco out d (Nat.le_of_eq hone) hokw
  have hended : drain c ((s.withWaiters (s.waiters ++ [⟨s.calls, .race⟩]) (s.calls + 1)).ended co out) =
      (drain c (s.ended co out)).withWaiters (s.waiters ++ [⟨s.calls, .race⟩]) (s.calls + 1) :=
    drain_withWaiters (s.waiters ++ [⟨s.calls, .race⟩]) (s.calls + 1) (s.ended co out)
  have hone' : races (s.withWaiters (s.waiters ++ [⟨s.calls, .race⟩]) (s.calls + 1)).waiters ≠ 0 := by
    show races (s.waiters ++ [⟨s.calls, .race⟩]) ≠ 0
    omega
  rw [hleft, if_neg hone', hended]
  -- after: the future finds it
  have hright := complete_tasks (c := c) hc ht hco out d (by omega) hok
  rw [if_pos hraces] at hright
  generalize onCoroutineComplete c d s co out = b at hright ⊢
  have hset : (newCall b).tasks = (drain c (s.ended co out)).tasks := hright
  have htake := race_takes (c := c) (s := newCall b) hc (e := ⟨co.key, co.call, out.task⟩)
    (by rw [hset]; exact hmem) (by cases out <;> rfl)
    (fun y hy hs => by
      rw [hset] at hy
      exact ended_settled ht hun hco out hy hs) b.calls
  rw [htake, hset]
  rfl

/-- The waiters, and `task_group_try_complete`, do not change what is active or pending. -/
theorem complete_counts (ht : Table s) (hco : co ∈ s.coros) (out : Outcome) (d : Bool) :
    (onCoroutineComplete c d s co out).active = (drain c (s.ended co out)).active ∧
    (onCoroutineComplete c d s co out).hasPending = (drain c (s.ended co out)).hasPending := by
  obtain ⟨hactive, hpending⟩ := Ends.told_counts (c := c) ht hco out d
  obtain ⟨-, hactive', -⟩ := tryComplete_rest c d (s.told c d co out)
  have heats := ((ht.told (c := c) hco out d).1.tryComplete (c := c) d).2
  rw [onCoroutineComplete_eq]
  exact ⟨hactive'.trans hactive, heats.hasPending.trans hpending⟩

/-- A future of `joinAll()` that waits leaves the vector in `task_group_try_complete` only,
and the set is empty then. -/
theorem all_answered (hc : c.taskSet = true) (hk : w.kind = .all ∨ w.kind = .allIgnoreErrors) (hw : w ∈ s.waiters)
    (e : Entry) (d : Bool) (hgone : w ∉ (tryComplete c d (notifyWaiters c d e s)).waiters) :
    (notifyWaiters c d e s).active ≤ 0 ∧ (notifyWaiters c d e s).hasPending = false ∧
      (tryComplete c d (notifyWaiters c d e s)).tasks = [] := by
  -- it stays while others leave
  have hstay : ∀ {o : Option Entry} {u t : St} {i : Nat} {x : Waiter} {g : Bool}, u.waiters[i]? = some x →
      Visit c d o u i x g t → w ∈ u.waiters → w ∈ t.waiters ∨ (o = none ∧ t.tasks = []) := by
    intro o u t i x g hx hv hm
    rw [(hv.later hx).2.1]
    have hself : g = true → x = w → o = none ∧ t.tasks = [] := by
      rintro hg rfl
      cases hv with
      | all _ _ ho => rw [consumeAll_set hc]; exact ⟨ho, rfl⟩
      | race _ _ hk' | any _ _ hk' | leave _ _ _ _ _ hk' => rw [hk'] at hk; simp at hk
      | skip | wake => cases hg
    cases g with
    | false => exact .inl hm
    | true =>
      rcases List.mem_cons.1 ((swapRemove_perm hx).mem_iff.1 hm) with heq | hm
      · exact .inr (hself rfl heq.symm)
      · exact .inl hm
  have hloop : w ∈ (notifyWaiters c d e s).waiters :=
    notifyWaiters_rule (P := fun u => w ∈ u.waiters) (fun hx hv hm => (hstay hx hv hm).resolve_right nofun) hw
  rcases tryComplete_cases c d (notifyWaiters c d e s) with ⟨-, heq⟩ | ⟨hact, hp, heq⟩
  · rw [heq] at hgone
    exact absurd hloop hgone
  refine ⟨hact, hp, ?_⟩
  rw [heq] at hgone ⊢
  generalize notifyWaiters c d e s = v at hloop hgone ⊢
  have hresolve : w ∈ (resolveWaiters c d v).waiters ∨ (resolveWaiters c d v).tasks = [] := by
    refine resolveWaiters_rule (P := fun u => w ∈ u.waiters ∨ u.tasks = []) (fun hx hv hm => ?_) (.inl hloop)
    rcases hm with hm | hnil
    · exact (hstay hx hv hm).imp id And.right
    · exact .inr (List.sublist_nil.1 (hnil ▸ hv.aside.tasks))
  exact hresolve.resolve_left hgone

/-- `joinAll()` that is answered by the end of a task, or called after it: the same set. -/
theorem all_paths (hc : c.taskSet = true) (ht : Table s) (hco : co ∈ s.coros) (out : Outcome) (d ignoreErrors : Bool)
    (hanswered : ∀ w ∈ (onCoroutineComplete c d (all c (newCall s) s.calls ignoreErrors) co out).waiters,
      w.id ≠ s.calls) :
    (onCoroutineComplete c d (all c (newCall s) s.calls ignoreErrors) co out).tasks =
      (all c (newCall (onCoroutineComplete c d s co out)) (onCoroutineComplete c d s co out).calls
        ignoreErrors).tasks := by
  have hwait : all c (newCall s) s.calls ignoreErrors =
      s.withWaiters (s.waiters ++ [⟨s.calls, if ignoreErrors then .allIgnoreErrors else .all⟩])
        (s.calls + 1) := by
    have hs : (newCall s).settled = false := by grind [ht.active, newCall, St.settled]
    unfold all
    rw [hs, if_neg Bool.false_ne_true]
    rfl
  rw [hwait] at hanswered ⊢
  generalize hw : (⟨s.calls, if ignoreErrors then .allIgnoreErrors else .all⟩ : Waiter) = w at hanswered ⊢
  have hk : w.kind = .all ∨ w.kind = .allIgnoreErrors := by
    rw [← hw]
    cases ignoreErrors
    · exact .inl rfl
    · exact .inr rfl
  have hended : drain c ((s.withWaiters (s.waiters ++ [w]) (s.calls + 1)).ended co out) =
      (drain c (s.ended co out)).withWaiters (s.waiters ++ [w]) (s.calls + 1) :=
    drain_withWaiters (s.waiters ++ [w]) (s.calls + 1) (s.ended co out)
  have hkeys := ht.settled_of_ended (c := c) hco out
  rw [onCoroutineComplete_eq, St.told, hended] at hanswered ⊢
  -- before: the future was answered, so that nothing was active or pending
  obtain ⟨hact, hp, hnil⟩ := all_answered (c := c) (d := d) hc hk
    (List.mem_append_right s.waiters List.mem_cons_self) ⟨co.key, co.call, out.task⟩
    fun hm => hanswered w hm (by rw [← hw])
  rw [hnil]
  have haside := notifyWaiters_aside c d ⟨co.key, co.call, out.task⟩
    ((drain c (s.ended co out)).withWaiters (s.waiters ++ [w]) (s.calls + 1))
  have heats := eats_notifyWaiters (c := c) (e := ⟨co.key, co.call, out.task⟩)
    (s := (drain c (s.ended co out)).withWaiters (s.waiters ++ [w]) (s.calls + 1)) hkeys d
  rw [haside.active] at hact
  rw [heats.hasPending] at hp
  -- after: the same holds, and the future takes everything
  obtain ⟨h1, h2⟩ := complete_counts (c := c) ht hco out d
  generalize onCoroutineComplete c d s co out = b at h1 h2 ⊢
  have hsettled : (newCall b).settled = true := by
    have hact : (drain c (s.ended co out)).active ≤ 0 := hact
    have hnonneg := (ht.ended hco out).drain (c := c) |>.active
    have hzero : b.active = 0 := by omega
    have hnone : b.hasPending = false := h2.trans hp
    show (decide (b.active = 0) && !b.hasPending) = true
    rw [hzero, hnone]
    rfl
  unfold all
  rw [hsettled, if_pos rfl]
  split <;> rw [consumeAll_set hc]

end Paths

/-- **Counterexample.** A future of `joinAny()` waits when the task ends and is given its
result, which stays in the set: `joinNext()` is given it again. -/
theorem any_delivers_twice :
    ∃ s, (lts ⟨0, 0, true⟩).Reachable s ∧
      deliveries s.log = [.answered 1 (.one ⟨.int 0, 0, .done 7⟩),
        .answered 2 (.one ⟨.int 0, 0, .done 7⟩)] := by
  exact exists_run 0 0 true (by decide) (by decide)
    [.spawn, .any, .complete 0 (.result 7) false, .race] (by decide +kernel)

/-- **At most once.** In every fresh and exclusive run of a set no task is delivered twice,
and what was delivered is not in the set. A `joinNext()` or `joinAll()` that is answered by
the end of a task leaves the same set as one that is called after it. -/
theorem delivered_once (c : Cfg) (hc : c.taskSet = true) (s : St)
    (hr : ((lts c).restrict fun s l => Fresh c s l ∧ Exclusive s l).Reachable s) :
    ((delivered s.log).map Entry.call).Nodup ∧
    (∀ e ∈ delivered s.log, e.call ∉ s.tasks.map Entry.call) ∧
    (∀ call out d a a' b b', (∀ e ∈ s.tasks, e.task.isSettled = false) → races s.waiters = 0 →
      noAll s.waiters ∨ 1 < s.active ∨ s.hasPending = true →
      step c s .race = some a → step c a (.complete call out d) = some a' →
      step c s (.complete call out d) = some b → step c b .race = some b' → a'.tasks = b'.tasks) ∧
    ∀ ignoreErrors call out d a a' b b',
      step c s (.all ignoreErrors) = some a → step c a (.complete call out d) = some a' →
      (∀ w ∈ a'.waiters, w.id ≠ s.calls) →
      step c s (.complete call out d) = some b → step c b (.all ignoreErrors) = some b' →
      a'.tasks = b'.tasks := by
  obtain ⟨ht, ho⟩ := (once_inductive hc).reachable s hr
  refine ⟨ho.nodup, fun e he hm => ?_, fun call out d a a' b b' hun hraces hok h1 h2 h3 h4 => ?_,
    fun ignoreErrors call out d a a' b b' h1 h2 hanswered h3 h4 => ?_⟩
  · exact ho.gone _ (List.mem_map_of_mem he) (List.mem_append_left _ hm)
  · obtain ⟨co, hfind, rfl⟩ := Option.map_eq_some_iff.1 h3
    obtain ⟨co', hfind', rfl⟩ := Option.map_eq_some_iff.1 h2
    rw [(step_turn rfl h1).aside.coros] at hfind'
    cases h1
    cases h4
    cases hfind.symm.trans hfind'
    exact race_paths hc ht hraces hun (List.mem_of_find?_eq_some hfind) out d hok
  · obtain ⟨co, hfind, rfl⟩ := Option.map_eq_some_iff.1 h3
    obtain ⟨co', hfind', rfl⟩ := Option.map_eq_some_iff.1 h2
    rw [(step_turn rfl h1).aside.coros] at hfind'
    cases h1
    cases h4
    cases hfind.symm.trans hfind'
    exact all_paths hc ht (List.mem_of_find?_eq_some hfind) out d ignoreErrors hanswered

/-- Four tasks, delivered by a `joinNext()` that waits, by one that does not, to an
iterator, and by a `joinAll()`. -/
theorem delivered_once_four :
    ∃ s : St, (delivered s.log).map Entry.call = [0, 1, 2, 3] ∧
      ((delivered s.log).map Entry.call).Nodup ∧ s.tasks = [] := by
  obtain ⟨s, hr, h1, h2⟩ := exists_restricted_run
    (fun s l => Fresh ⟨0, 0, true⟩ s l ∧ Exclusive s l) 0 0 true (by decide) (by decide)
    [.spawn, .spawn, .spawn, .spawn, .race, .complete 0 (.result 7) false,
      .complete 1 (.error .cancellation) false, .race, .iterate, .complete 2 (.result 8) false,
      .runIterator 0, .all true, .complete 3 (.result 9) false]
    (P := fun s => (delivered s.log).map Entry.call = [0, 1, 2, 3] ∧ s.tasks = []) (by decide +kernel)
  exact ⟨s, h1, (delivered_once _ rfl s hr).1, h2⟩

end PhpAsync.L2.TaskGroup
