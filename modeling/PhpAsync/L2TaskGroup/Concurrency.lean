import PhpAsync.L2TaskGroup.Table

/-!
# `Async\TaskGroup`: the limit on concurrency

`task_group_has_slot` compares `active_coroutines`, an `int32_t`, with the limit cast
to `int32_t`. A limit above `INT32_MAX`, which the constructor accepts, becomes
negative: such a group never starts a task (`cast_blocks_tasks`,
`no_slot_above_int32`).

* `Limits`: what every run keeps, whatever the keys are: the limit is not exceeded,
  and a task waits only while no slot is free. The second half is what the loop of
  `task_group_drain` establishes whenever a slot becomes free.
* `concurrency_discipline`: with the counters of `Table`, over the fresh runs.
-/
namespace PhpAsync.L2.TaskGroup

open PhpAsync.Core PhpAsync.L1

theorem i32_le (n : Nat) : i32 n ≤ n := by
  unfold i32
  split <;> omega

theorem i32_of_le {n : Nat} (h : n ≤ 2147483647) : i32 n = n := by
  unfold i32
  rw [if_pos (by omega)]

theorem hasSlot_lt {c : Cfg} {s : St} (h : hasSlot c s = true) (hc : 0 < c.concurrency) :
    s.active < i32 c.concurrency := by
  simp only [hasSlot, Bool.or_eq_true, decide_eq_true_eq] at h
  omega

/-- The limit holds, and no task waits while a slot is free. -/
structure Limits (c : Cfg) (s : St) : Prop where
  cap : 0 < c.concurrency → s.active ≤ c.concurrency
  busy : s.scopeClosed = false → s.hasPending = true → hasSlot c s = false

namespace Limits

variable {c : Cfg} {s t : St}

/-- Settled tasks may go, and the scope may close. -/
theorem shrink (h : Limits c s) (htasks : t.tasks.Sublist s.tasks) (hactive : t.active = s.active)
    (hscope : t.scopeClosed = false → s.scopeClosed = false) : Limits c t := by
  refine ⟨fun hc => ?_, fun hs hp => ?_⟩
  · rw [hactive]
    exact h.cap hc
  · have hp' : s.hasPending = true := by
      cases hsp : s.hasPending with
      | true => rfl
      | false =>
        rw [hasPending_sublist htasks hsp] at hp
        cases hp
    have := h.busy (hscope hs) hp'
    unfold hasSlot at this ⊢
    rw [hactive]
    exact this

theorem aside (h : Limits c s) (ha : Aside c s t) : Limits c t :=
  h.shrink ha.tasks ha.active fun hs => by rw [← ha.scopeClosed]; exact hs

theorem tryComplete (h : Limits c s) (d : Bool) : Limits c (tryComplete c d s) :=
  tryComplete_rule d h fun _ _ => (h.aside (resolveWaiters_aside c d s)).shrink (.refl _) rfl id

theorem entered {own fresh : Prop} {call : Nat} {key : Key} (h : Limits c s)
    (he : Entered c own fresh s call key t) : Limits c t := by
  cases he with
  | refused => exact h.shrink (.refl _) rfl id
  | waits => exact h.shrink (.refl _) rfl id
  | runs _ _ hslot hscope =>
    refine ⟨fun hc => ?_, fun hs hp => ?_⟩
    · have h1 := hasSlot_lt hslot hc
      have h2 := i32_le c.concurrency
      show s.active + 1 ≤ _
      omega
    -- the slot was free, so no task was waiting for it
    · grind [h.busy, St.hasPending, Task.isPending]
  | queued _ _ hslot => exact ⟨h.cap, fun _ _ => hslot⟩

/-- The loop of `task_group_drain` leaves no task waiting for a free slot. -/
theorem drain (hcap : 0 < c.concurrency → s.active ≤ c.concurrency) : Limits c (drain c s) := by
  refine ⟨?_, fun hs hp => ?_⟩
  · refine drain_induct (P := fun t => 0 < c.concurrency → t.active ≤ c.concurrency) ?_ hcap
    intro t u htu _ hc
    obtain ⟨hslot, -, a, x, b, -, -, rfl⟩ := drainStep_cases htu
    rw [fireOneSlotWaiter_eq]
    have h1 := hasSlot_lt hslot hc
    have h2 := i32_le c.concurrency
    show t.active + 1 ≤ _
    omega
  · grind [drainStep_none, drain_stops]

theorem complete (h : Limits c s) (d : Bool) (co : Coro) (out : Outcome) :
    Limits c (onCoroutineComplete c d s co out) := by
  have hd : Limits c (TaskGroup.drain c (s.ended co out)) := by
    refine Limits.drain fun hc => ?_
    have := h.cap hc
    show s.active - 1 ≤ _
    omega
  exact (hd.aside (told_aside c d s co out)).tryComplete d

theorem step {l : Lbl} (h : Limits c s) (hst : step c s l = some t) : Limits c t := by
  cases step_move hst with
  | spawns hu he =>
    refine Limits.entered ?_ he
    rw [hu.eq.1]
    exact h.shrink (.refl _) rfl id
  | complete co out d _ => exact h.complete d co out
  | aside _ ht => exact h.aside ht.aside
  | again => exact h
  | seals _ d b _ _ hb =>
    refine Limits.tryComplete (s := s.seal b) (h.shrink (.refl _) rfl fun hs => ?_) d
    exact Bool.eq_false_iff.2 fun hc => Bool.eq_false_iff.1 hs (hb hc)
  | closeScope => exact h.shrink (.refl _) rfl nofun
  | cancelSpawner | late | handler | stopped | registers => exact h.shrink (.refl _) rfl id

end Limits

theorem limits_inductive (c : Cfg) : (lts c).Inductive (Limits c) where
  init s hi := by
    rw [hi.2]
    exact ⟨fun _ => Int.natCast_nonneg _, fun _ hp => by cases hp⟩
  step _ _ _ h hs := h.step hs

/-! ## The limit as an `int32_t` -/

/-- **Counterexample.** A group whose limit is `INT32_MAX + 1`: the first task waits
for a slot while nothing runs. -/
theorem cast_blocks_tasks :
    ∃ s, (lts ⟨2147483648, 1, false⟩).Reachable s ∧ s.scopeClosed = false ∧ s.active = 0 ∧
      s.tasks = [⟨.int 0, 0, .pending⟩] := by
  exact exists_run 2147483648 1 false (by decide) (by decide) [.spawn] (by decide +kernel)

/-- So it is with every such limit, as `active_coroutines` does not get negative. -/
theorem no_slot_above_int32 (c : Cfg) (hc : 2147483647 < c.concurrency) (s : St)
    (hr : ((lts c).restrict (Fresh c)).Reachable s) : hasSlot c s = false := by
  have hactive := ((table_inductive c).reachable s hr).active
  have hlt : c.concurrency < 4294967296 := by
    obtain ⟨s₀, ls, ⟨⟨n, q, b, hcons⟩, -⟩, -⟩ := hr
    exact (construct_lt hcons).1
  have hcast : i32 c.concurrency < 0 := by
    unfold i32
    rw [if_neg (by omega)]
    omega
  simp only [hasSlot, Bool.or_eq_false_iff, decide_eq_false_iff_not]
  omega

/-- Two callers that wait with one key: in the end nothing runs, and the entry of the
first one is still marked as running. -/
theorem duplicate_key_miscounts :
    ∃ s, (lts ⟨1, 1, false⟩).Reachable s ∧ s.active = 0 ∧
      (s.tasks.countP fun e => e.task.isRunning) = 1 := by
  exact exists_run 1 1 false (by decide) (by decide)
    [.spawn, .spawn, .spawnWithKey (.str "a"), .spawnWithKey (.str "a"),
      .complete 0 (.result 0) false, .runSpawner 2, .complete 1 (.result 1) false, .runSpawner 3,
      .complete 2 (.result 2) false] (by decide +kernel)

theorem runs_length (l : List Entry) : (runs l).length = l.countP fun e => e.task.isRunning := by
  unfold runs
  rw [List.length_map, List.countP_eq_length_filter]

/-- **Concurrency discipline.** In every fresh run of a group whose limit is an
`int32_t`: the counters count the running and the pending entries (`pending_count` as
long as the table has no more entries than a `uint32_t` counts), the limit is not
exceeded, and while the scope lives no task waits for a slot that is free. -/
theorem concurrency_discipline (c : Cfg) (hc : c.concurrency ≤ 2147483647) (s : St)
    (hr : ((lts c).restrict (Fresh c)).Reachable s) :
    ((s.tasks.countP fun e => e.task.isRunning : Nat) : Int) = s.active ∧
    (0 < c.concurrency → s.active ≤ c.concurrency) ∧
    (s.tasks.length < 4294967296 → s.pendingCount = s.tasks.countP fun e => e.task.isPending) ∧
    (s.scopeClosed = false → s.active < c.concurrency →
      ∀ e ∈ s.tasks, e.task.isPending = false) := by
  have ht := (table_inductive c).reachable s hr
  have hl := (limits_inductive c).reachable s hr.of_restrict
  refine ⟨?_, hl.cap, fun hlen => ?_, fun hs ha => ?_⟩
  · rw [ht.active, ht.coros.length_eq, runs_length]
  · grind [ht.pendingCount, St.pendings]
  · rw [← hasPending_false]
    cases hp : s.hasPending with
    | false => rfl
    | true =>
      have hslot := hl.busy hs hp
      simp only [hasSlot, Bool.or_eq_false_iff, decide_eq_false_iff_not, i32_of_le hc] at hslot
      exact absurd ha hslot.2

/-- A limit of two: of three tasks one waits, and a completion lets it run. -/
theorem concurrency_discipline_two :
    ∃ s : St, s.tasks = [⟨.int 0, 0, .done 0⟩, ⟨.int 1, 1, .running⟩, ⟨.int 2, 2, .running⟩,
        ⟨.int 3, 3, .pending⟩] ∧ s.active = 2 ∧ s.pendingCount = 1 := by
  obtain ⟨s, hr, ht⟩ := exists_restricted_run (Fresh ⟨2, 4, false⟩) 2 4 false (by decide) (by decide)
    [.spawn, .spawn, .spawn, .spawn, .complete 0 (.result 0) false]
    (P := fun s => s.tasks = [⟨.int 0, 0, .done 0⟩, ⟨.int 1, 1, .running⟩,
      ⟨.int 2, 2, .running⟩, ⟨.int 3, 3, .pending⟩]) (by decide +kernel)
  obtain ⟨h1, -, h2, -⟩ := concurrency_discipline ⟨2, 4, false⟩ (by decide) s hr
  rw [ht] at h1 h2
  exact ⟨s, ht, h1.symm, h2 (by decide)⟩

end PhpAsync.L2.TaskGroup
