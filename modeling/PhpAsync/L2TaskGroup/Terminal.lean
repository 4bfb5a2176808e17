import PhpAsync.L2TaskGroup.Table

/-!
# `Async\TaskGroup`: the end of a group

A sealed group accepts no task, and it is `COMPLETED` once nothing is active or
pending: `Finishes`.

**Cancellation.** `cancel()` seals the group and cancels the scope. The callbacks of the
cancelled coroutines then run the normal `task_group_drain`, and as the scope is not
closed yet, that starts the tasks that were pending (`cancel_starts_pending`).
`cancel_starts_nothing` holds for a group without pending tasks, and as far as starts
go also for one whose scope is closed.

**Notifications.** `task_group_try_complete` closes the group's event and spawns a
coroutine that calls the `finally()` handlers whenever nothing is active or pending, sealed
or not: an open group that has run out of tasks notifies early (`early_notification`). The
coroutine lives in a child of the group's scope, and `dispose()` cancels it before it has
started. `Occupied` keeps the runs in which an open group never runs out of tasks and the
coroutine is not cancelled before it has called its handlers, and `terminal_notifications`
is about these; `early_of_not_occupied` is the converse for the tasks.
-/
namespace PhpAsync.L2.TaskGroup

open PhpAsync.Core PhpAsync.L1

/-- Sealed, nothing active, nothing pending. -/
def St.terminal (s : St) : Prop := s.isSealed = true ∧ s.active = 0 ∧ s.hasPending = false

def Finishes (s : St) : Prop :=
  s.isSealed = true → s.active = 0 → s.hasPending = false → s.isCompleted = true

section Facts

variable {c : Cfg} {s t : St}

theorem hasPending_iff : s.hasPending = true ↔ 0 < s.pendings := by
  unfold St.hasPending St.pendings
  rw [List.countP_pos_iff, List.any_eq_true]

theorem Eats.hasPending (h : Eats s.tasks t.tasks) : t.hasPending = s.hasPending := by
  rw [Bool.eq_iff_iff, hasPending_iff, hasPending_iff]
  unfold St.pendings
  rw [h.pendings]

/-- What `task_group_try_complete` leaves alone. -/
theorem tryComplete_rest (c : Cfg) (d : Bool) (s : St) :
    (tryComplete c d s).coros = s.coros ∧ (tryComplete c d s).active = s.active ∧
    (tryComplete c d s).isSealed = s.isSealed ∧ (tryComplete c d s).scopeClosed = s.scopeClosed ∧
    started (tryComplete c d s).log = started s.log ∧
    (s.hasPending = false → (tryComplete c d s).hasPending = false) := by
  refine tryComplete_rule (P := fun t => t.coros = s.coros ∧ t.active = s.active ∧ t.isSealed = s.isSealed ∧
    t.scopeClosed = s.scopeClosed ∧ started t.log = started s.log ∧ (s.hasPending = false → t.hasPending = false)) d
    ⟨rfl, rfl, rfl, rfl, rfl, id⟩ fun _ _ => ?_
  have ha := resolveWaiters_aside c d s
  have hlog : started (finish (resolveWaiters c d s)).log = started (resolveWaiters c d s).log := by
    simp [finish, started, Ev.started?]
  exact ⟨ha.coros, ha.active, ha.isSealed, ha.scopeClosed, hlog.trans ha.started,
    fun hp => hasPending_sublist (t := finish (resolveWaiters c d s)) ha.tasks hp⟩

theorem tryComplete_finishes (c : Cfg) (d : Bool) (s : St) : Finishes (tryComplete c d s) := by
  intro hs ha hp
  rcases tryComplete_cases c d s with ⟨h, heq⟩ | ⟨-, -, heq⟩
  · rw [heq] at ha hp
    rcases h with h | h
    · omega
    · cases hp.symm.trans h
  · rw [heq] at hs ⊢
    have hs : (resolveWaiters c d s).isSealed = true := hs
    show ((resolveWaiters c d s).isCompleted || (resolveWaiters c d s).isSealed) = true
    rw [hs, Bool.or_true]

end Facts

/-! ## Sealed groups -/

section Sealed

variable {c : Cfg} {s t : St} {l : Lbl}

theorem finishes_step (h : Finishes s) (ht : Table s) (hst : step c s l = some t) : Finishes t := by
  cases step_move hst with
  | spawns hu he =>
    intro hs
    obtain ⟨f, rfl⟩ := hu.refused he ((SameEnd.spawns hu he).isSealed ▸ hs)
    revert hs
    rw [hu.eq.1]
    exact h
  | complete co out d _ => exact tryComplete_finishes c d _
  | aside _ hturn =>
    have ha := hturn.aside
    intro hs hact hp
    rw [ha.isCompleted]
    refine h (ha.isSealed ▸ hs) (ha.active ▸ hact) ?_
    rw [← (hturn.eats ht).hasPending]
    exact hp
  | seals _ d => exact tryComplete_finishes c d _
  | _ => exact h

theorem finishes_inductive (c : Cfg) :
    ((lts c).restrict (Fresh c)).Inductive fun s => Table s ∧ Finishes s :=
  (table_inductive c).and
    (fun s hi => by rw [hi.2]; exact nofun)
    (fun _ _ _ ht _ h hs => finishes_step h ht hs.2)

/-- A sealed group inserts no key, whoever resumes. -/
theorem fresh_of_sealed (hs : s.isSealed = true) (l : Lbl) : Fresh c s l := by
  cases l with
  | runSpawner call =>
    intro sp _ _ _ hno
    cases hs.symm.trans hno
  | _ => trivial

end Sealed

/-! ## Cancellation -/

/-- From `s` to `t` a sealed group started nothing, and no task became pending. -/
structure Rests (s t : St) : Prop where
  isSealed : t.isSealed = true
  hasPending : s.hasPending = false → t.hasPending = false
  scopeClosed : s.scopeClosed = true → t.scopeClosed = true
  coros : ∀ co ∈ t.coros, co ∈ s.coros
  started : started t.log = started s.log

namespace Rests

variable {c : Cfg} {s t u : St} {l : Lbl}

theorem refl (hs : s.isSealed = true) : Rests s s := ⟨hs, id, id, fun _ h => h, rfl⟩

theorem trans (h : Rests s t) (h' : Rests t u) : Rests s u :=
  ⟨h'.isSealed, fun hp => h'.hasPending (h.hasPending hp), fun hc => h'.scopeClosed (h.scopeClosed hc),
    fun co hco => h.coros co (h'.coros co hco), h'.started.trans h.started⟩

theorem aside (hs : s.isSealed = true) (ha : Aside c s t) : Rests s t :=
  ⟨ha.isSealed.trans hs, hasPending_sublist ha.tasks, fun hc => ha.scopeClosed.trans hc,
    fun _ hco => ha.coros ▸ hco, ha.started⟩

theorem tryComplete (hs : s.isSealed = true) (d : Bool) : Rests s (tryComplete c d s) := by
  obtain ⟨h1, -, h3, h4, h5, h6⟩ := tryComplete_rest c d s
  exact ⟨h3.trans hs, h6, fun hc => h4.trans hc, fun _ hco => h1 ▸ hco, h5⟩

/-- An event that starts nothing. -/
theorem emit (h : Rests s t) (e : Ev) (he : e.started? = none) : Rests s (emit t e) :=
  { h with started := (started_concat t.log he).trans h.started }

end Rests

variable {c : Cfg} {co : Coro} {s : St}

/-- Without a pending task, or in a closed scope, nothing is started. -/
theorem drain_idle (h : s.hasPending = false ∨ s.scopeClosed = true) : drain c s = s := by
  refine Loop.run_none ?_ _
  cases hst : drainStep c s with
  | none => rfl
  | some t =>
    obtain ⟨-, hscope, a, x, b, h1, h2, -⟩ := drainStep_cases hst
    rcases h with h | h
    · have := hasPending_false.1 h x (by rw [h1]; exact List.mem_append_right a List.mem_cons_self)
      rw [h2] at this
      cases this
    · cases hscope.symm.trans h

theorem ended_hasPending {out : Outcome} (h : s.hasPending = false) : (s.ended co out).hasPending = false := by
  have hout : out.task.isPending = false := by cases out <;> rfl
  rw [hasPending_false] at h ⊢
  intro e he
  have he : e ∈ settle co.key out.task s.tasks := he
  cases hk : hasKey co.key s.tasks with
  | false =>
    rw [settle_of_not_hasKey hk] at he
    exact h e he
  | true => grind [split_of_hasKey]

section Cancel

variable {c : Cfg} {s t : St} {l : Lbl}

/-- **One step of a sealed group** in which nothing can be started. -/
theorem sealed_step (hs : s.isSealed = true) (hstuck : s.hasPending = false ∨ s.scopeClosed = true)
    (hst : step c s l = some t) : Rests s t := by
  cases step_move hst with
  | spawns hu he =>
    obtain ⟨f, rfl⟩ := hu.refused he hs
    refine Rests.emit ?_ _ rfl
    rw [hu.eq.1]
    exact { Rests.refl hs with }
  | complete co out d _ =>
    have he : Rests s (s.ended co out) :=
      ⟨hs, ended_hasPending, id, fun x hx => List.mem_of_mem_erase hx, rfl⟩
    have hstuck' : (s.ended co out).hasPending = false ∨ (s.ended co out).scopeClosed = true :=
      hstuck.imp he.hasPending he.scopeClosed
    rw [onCoroutineComplete_eq, St.told, drain_idle hstuck']
    have hn := he.trans (.aside he.isSealed (notifyWaiters_aside c d ⟨co.key, co.call, out.task⟩ _))
    exact hn.trans (.tryComplete hn.isSealed d)
  | aside _ ht => exact .aside hs ht.aside
  | again => exact .refl hs
  | seals _ _ _ _ hno => cases hs.symm.trans hno
  | late => exact Rests.emit (t := newCall s) { Rests.refl hs with } _ rfl
  | handler k _ l => exact Rests.emit (t := { s with due := s.due.set k l }) { Rests.refl hs with } _ rfl
  | closeScope => exact { Rests.refl hs with scopeClosed := fun _ => rfl }
  | cancelSpawner | registers | stopped => exact { Rests.refl hs with }

/-- What a sealed group in which nothing can be started keeps. -/
structure Halted (base s : St) : Prop where
  rests : Rests base s
  stuck : s.hasPending = false ∨ s.scopeClosed = true
  table : Table s
  finishes : Finishes s

theorem Halted.step {base : St} (h : Halted base s) (hst : step c s l = some t) : Halted base t := by
  have hr := sealed_step h.rests.isSealed h.stuck hst
  exact ⟨h.rests.trans hr, h.stuck.imp hr.hasPending hr.scopeClosed,
    (h.table.step (fresh_of_sealed h.rests.isSealed l) hst).1, finishes_step h.finishes h.table hst⟩

/-- `cancel()` itself. -/
theorem cancel_halted {d b : Bool} (ht : Table s) (hf : Finishes s)
    (hstuck : s.hasPending = false ∨ s.scopeClosed = true ∨ (s.isSealed = false ∧ b = true))
    (hst : step c s (.cancel d b) = some t) : Halted s t := by
  have htable := (ht.step (l := .cancel d b) trivial hst).1
  have hfin := finishes_step hf ht hst
  cases step_move hst with
  | again _ hs =>
    refine ⟨.refl hs, ?_, htable, hfin⟩
    rcases hstuck with h | h | ⟨h, -⟩
    · exact .inl h
    · exact .inr h
    · cases hs.symm.trans h
  | seals _ d' b' hl _ hb =>
    have hseal : Rests s (s.seal b') := ⟨rfl, id, hb, fun _ h => h, rfl⟩
    have hstuck' : (s.seal b').hasPending = false ∨ (s.seal b').scopeClosed = true := by
      rcases hstuck with h | h | ⟨-, h⟩
      · exact .inl h
      · exact .inr (hb h)
      · rcases hl with ⟨hl, -⟩ | ⟨x, hl, hb'⟩
        · cases hl
        · cases hl
          exact .inr (hb'.trans (by rw [h, Bool.or_true]))
    have htry := Rests.tryComplete (c := c) hseal.isSealed d'
    exact ⟨hseal.trans htry, hstuck'.imp htry.hasPending htry.scopeClosed, htable, hfin⟩
  | spawns hu => cases hu
  | aside hl => cases hl

end Cancel

/-- **Counterexample.** One slot: a task runs, one waits. `cancel()` is called, and when
the cancelled coroutine has ended the other task is started. -/
theorem cancel_starts_pending :
    ∃ s t, (lts ⟨1, 2, false⟩).Reachable s ∧
      (lts ⟨1, 2, false⟩).Run s [.cancel false false, .complete 0 (.error .cancellation) false] t ∧
      s.tasks = [⟨.int 0, 0, .running⟩, ⟨.int 1, 1, .pending⟩] ∧
      t.tasks = [⟨.int 0, 0, .error .cancellation⟩, ⟨.int 1, 1, .running⟩] ∧
      started t.log = [0, 1] := by
  exact exists_run_run 1 2 false (by decide) (by decide) [.spawn, .spawn]
    [.cancel false false, .complete 0 (.error .cancellation) false] (by decide +kernel)

/-- **Cancellation.** `cancel()` is called in a fresh run, while no task is pending or the
scope is closed or closes. Whatever happens then: nothing is started, every task that
runs was running, and if no task was pending the group is completed as soon as its
coroutines have ended. -/
theorem cancel_starts_nothing (c : Cfg) (s s' t : St) (d scopeDone : Bool) (ls : List Lbl)
    (hr : ((lts c).restrict (Fresh c)).Reachable s)
    (hstuck : s.hasPending = false ∨ s.scopeClosed = true ∨ (s.isSealed = false ∧ scopeDone = true))
    (hst : step c s (.cancel d scopeDone) = some s') (hrun : (lts c).Run s' ls t) :
    started t.log = started s.log ∧
    (∀ e ∈ t.tasks, e.task = .running → e ∈ s.tasks) ∧
    (s.hasPending = false → t.coros = [] → t.isCompleted = true) := by
  obtain ⟨ht, hf⟩ := (finishes_inductive c).reachable s hr
  have hhalt : Halted s t :=
    hrun.keeps (fun _ _ _ h hst => h.step hst) (cancel_halted ht hf hstuck hst)
  refine ⟨hhalt.rests.started, fun e he hrunning => ?_, fun hp hnil => ?_⟩
  · have hco : e.coro ∈ t.coros := hhalt.table.coros.mem_iff.2 (mem_runs.2 ⟨e, he, hrunning, rfl⟩)
    obtain ⟨x, hx, hxr, hxe⟩ := mem_runs.1 (ht.coros.mem_iff.1 (hhalt.rests.coros _ hco))
    have heq : x = e := by
      cases x
      cases e
      cases hxe
      cases hxr
      cases hrunning
      rfl
    exact heq ▸ hx
  · refine hhalt.finishes hhalt.rests.isSealed ?_ (hhalt.rests.hasPending hp)
    rw [hhalt.table.active, hnil]
    rfl

/-- Two tasks run when `cancel()` is called: when they have ended the group is
completed. -/
theorem cancel_starts_nothing_two :
    ∃ t : St, started t.log = [0, 1] ∧ t.coros = [] ∧ t.isCompleted = true := by
  obtain ⟨s, t, hr, hrun, h1, h2, h3⟩ := exists_restricted_run_run (Fresh ⟨2, 4, false⟩) 2 4 false (by decide)
    (by decide) [.spawn, .spawn]
    [.cancel false false, .complete 1 (.error .cancellation) false, .spawn,
      .complete 0 (.error .cancellation) false]
    (P := fun s t => s.hasPending = false ∧ started s.log = [0, 1] ∧ t.coros = []) (by decide +kernel)
  cases hrun.of_restrict with
  | cons hst hrest =>
    obtain ⟨h4, -, h5⟩ := cancel_starts_nothing ⟨2, 4, false⟩ s _ t false false _ hr (.inl h1) hst hrest
    exact ⟨t, h4.trans h2, h3, h5 h1 h3⟩

/-! ## Notifications -/

instance (s : St) : Decidable s.terminal := by
  unfold St.terminal
  infer_instance

/-- A task of an open group ends only while another one runs or waits, and a coroutine of
handlers is cancelled only when it has called them all. -/
def Occupied (s : St) : Lbl → Prop
  | .complete _ _ _ => s.isSealed = true ∨ 1 < s.active ∨ s.hasPending = true
  | .cancelHandlers k => s.due[k]?.getD [] = []
  | _ => True

instance (s : St) : ∀ l, Decidable (Occupied s l) := by
  intro l
  apply @Lbl.casesOn (fun l => Decidable (Occupied s l)) l <;> intros <;> dsimp only [Occupied] <;> infer_instance

/-- The handlers that were called, or will be. -/
def St.given (s : St) : List Nat := s.due.flatten ++ finallyCalls s.log

theorem SameEnd.given {s t : St} (h : SameEnd s t) : t.given = s.given := by
  simp [St.given, h.due, h.finallyCalls]

/-- The end gives the handlers to a coroutine. -/
theorem given_finish (s : St) : (finish s).given = s.due.flatten ++ s.finallyHandlers ++ finallyCalls s.log := by
  have hlog : finallyCalls (s.log ++ [.notified]) = finallyCalls s.log := finallyCalls_concat s.log rfl
  show (if s.finallyHandlers = [] then s.due else s.due ++ [s.finallyHandlers]).flatten ++ _ = _
  rw [show (finish s).log = s.log ++ [.notified] from rfl, hlog]
  split <;> simp [*]

theorem flatten_perm_set {h : Nat} {hs : List Nat} : ∀ {l : List (List Nat)} {k : Nat}, l[k]? = some (h :: hs) →
    l.flatten.Perm (h :: (l.set k hs).flatten)
  | _ :: _, 0, hk => by
    cases hk
    exact .refl _
  | x :: l, k + 1, hk => by
    have hrest : l[k]? = some (h :: hs) := hk
    simp only [List.flatten_cons, List.set_cons_succ]
    exact ((flatten_perm_set hrest).append_left x).trans List.perm_middle

/-- A coroutine calls its next handler. -/
theorem given_handler {s : St} {k h : Nat} {hs : List Nat} (hk : s.due[k]? = some (h :: hs)) :
    (emit { s with due := s.due.set k hs } (.finallyCalled h)).given.Perm s.given := by
  have hlog : finallyCalls (s.log ++ [.finallyCalled h]) = finallyCalls s.log ++ [h] := finallyCalls_append _ _
  show ((s.due.set k hs).flatten ++ finallyCalls (s.log ++ [.finallyCalled h])).Perm _
  rw [hlog, ← List.append_assoc]
  exact (List.perm_append_singleton h _).trans ((flatten_perm_set hk).append_right _).symm

/-- A coroutine that has called its handlers is cancelled. -/
theorem set_done {s : St} {k : Nat} (hk : s.due[k]?.getD [] = []) : { s with due := s.due.set k [] } = s := by
  have hset : s.due.set k [] = s.due := by
    cases h : s.due[k]? with
    | none => exact List.set_eq_of_length_le (List.getElem?_eq_none_iff.1 h)
    | some x =>
      rw [h] at hk
      obtain ⟨hlt, heq⟩ := List.getElem?_eq_some_iff.1 h
      rw [← show x = [] from hk, ← heq, List.set_getElem_self]
  rw [hset]

/-- The event is closed and handlers are called only at the end, each handler once. -/
structure Ends (s : St) : Prop where
  done : s.isCompleted = true → s.terminal ∧ s.finallyHandlers = []
  event : s.eventClosed = true → s.isCompleted = true
  silent : s.isCompleted = false → s.given = []
  once : (s.finallyHandlers ++ s.given).Nodup
  bound : ∀ h ∈ s.finallyHandlers ++ s.given, h < s.calls

namespace Ends

variable {c : Cfg} {s t : St} {l : Lbl}

theorem create : Ends create := by
  constructor
  · exact nofun
  · exact nofun
  · exact fun _ => rfl
  · exact List.nodup_nil
  · exact nofun

/-- The flags and handlers are as they were, and if the group was completed also the
tasks. -/
theorem same (h : Ends s) (hse : SameEnd s t) (hcalls : s.calls ≤ t.calls)
    (hdone : s.isCompleted = true → t.active = s.active ∧ (s.hasPending = false → t.hasPending = false)) :
    Ends t := by
  refine ⟨fun hc => ?_, fun he => ?_, fun hc => ?_, ?_, fun n hn => ?_⟩
  · rw [hse.isCompleted] at hc
    obtain ⟨⟨h1, h2, h3⟩, h4⟩ := h.done hc
    obtain ⟨ha, hp⟩ := hdone hc
    exact ⟨⟨hse.isSealed.trans h1, ha.trans h2, hp h3⟩, hse.finallyHandlers.trans h4⟩
  · rw [hse.eventClosed] at he
    exact hse.isCompleted.trans (h.event he)
  · rw [hse.isCompleted] at hc
    exact hse.given.trans (h.silent hc)
  · rw [hse.finallyHandlers, hse.given]
    exact h.once
  · rw [hse.finallyHandlers, hse.given] at hn
    exact Nat.lt_of_lt_of_le (h.bound n hn) hcalls

/-- A group that was not completed runs `task_group_try_complete`: either something is
active or pending, or it is sealed, and the end has come. -/
theorem tryComplete (h : Ends s) (hopen : s.isCompleted = false) (hactive : 0 ≤ s.active) (d : Bool)
    (hbusy : s.isSealed = true ∨ 0 < s.active ∨ s.hasPending = true) :
    Ends (tryComplete c d s) := by
  refine tryComplete_rule d h fun hle hp => ?_
  have hsealed : s.isSealed = true := by grind
  have ha := resolveWaiters_aside c d s
  have hfin : (finish (resolveWaiters c d s)).given = s.finallyHandlers := by
    obtain ⟨hdue, hcalls⟩ := List.append_eq_nil_iff.1 (h.silent hopen)
    rw [given_finish, ha.due, ha.finallyCalls, ha.finallyHandlers, hdue, hcalls, List.nil_append, List.append_nil]
  have honce := h.once
  have hbound := h.bound
  rw [h.silent hopen, List.append_nil] at honce hbound
  refine ⟨fun _ => ⟨⟨ha.isSealed.trans hsealed, ?_, ?_⟩, rfl⟩, fun _ => ?_, fun hc => ?_, ?_, fun n hn => ?_⟩
  · exact ha.active.trans (by omega)
  · exact hasPending_sublist (t := finish (resolveWaiters c d s)) ha.tasks hp
  · show (_ || (resolveWaiters c d s).isSealed) = true
    rw [ha.isSealed, hsealed, Bool.or_true]
  · have hc : (_ || (resolveWaiters c d s).isSealed) = false := hc
    rw [ha.isSealed, hsealed, Bool.or_true] at hc
    cases hc
  · rw [hfin]
    exact honce
  · rw [hfin] at hn
    exact Nat.lt_of_lt_of_le (hbound n hn) ha.calls

theorem notCompleted (h : Ends s) (ht : Table s) (hco : co ∈ s.coros) : s.isCompleted = false := by
  cases hc : s.isCompleted with
  | false => rfl
  | true =>
    have hlen := List.length_pos_of_mem hco
    have hzero := (h.done hc).1.2.1
    have hact := ht.active
    omega

/-- The waiters do not change what is active or pending. -/
theorem told_counts (ht : Table s) (hco : co ∈ s.coros) (out : Outcome) (d : Bool) :
    (s.told c d co out).active = (drain c (s.ended co out)).active ∧
    (s.told c d co out).hasPending = (drain c (s.ended co out)).hasPending :=
  ⟨(told_aside c d s co out).active, (ht.told (c := c) hco out d).2.hasPending⟩

/-- An occupied group stays so until `task_group_try_complete` looks. -/
theorem busy_of_occupied (ht : Table s) (hco : co ∈ s.coros) (out : Outcome) (d : Bool)
    (ho : 1 < s.active ∨ s.hasPending = true) :
    0 < (s.told c d co out).active ∨ (s.told c d co out).hasPending = true := by
  obtain ⟨hsame, hsame'⟩ := told_counts (c := c) ht hco out d
  rw [hsame, hsame']
  have htd : Table (s.ended co out) := ht.ended hco out
  have hstart : 0 < (s.ended co out).active ∨ (s.ended co out).hasPending = true := by
    rcases ho with ho | ho
    · left
      show 0 < s.active - 1
      omega
    · right
      obtain ⟨a, x, b, h1, hr, rfl, hset⟩ := ht.split_of_coro hco
      obtain ⟨e, he, hep⟩ := List.any_eq_true.1 ho
      refine List.any_eq_true.2 ⟨e, ?_, hep⟩
      show e ∈ settle x.coro.key out.task s.tasks
      rw [hset]
      rw [h1] at he
      rcases List.mem_append.1 he with he | he
      · exact List.mem_append_left _ he
      · rcases List.mem_cons.1 he with rfl | he
        · rw [hr] at hep
          cases hep
        · exact List.mem_append_right a (List.mem_cons_of_mem _ he)
  have hind := drain_induct (c := c) (s := s.ended co out)
    (P := fun u => Table u ∧ (0 < u.active ∨ u.hasPending = true))
    (fun u v huv ⟨htu, _⟩ => ⟨htu.start huv, ?_⟩) ⟨htd, hstart⟩
  · exact hind.2
  · have hact := htu.active
    obtain ⟨-, -, a, x, b, -, -, rfl⟩ := drainStep_cases huv
    rw [fireOneSlotWaiter_eq]
    left
    show 0 < u.active + 1
    omega

/-- The handler gets a new number. -/
theorem numbered (h : Ends s) {l : List Nat} (hl : l.Perm (s.calls :: (s.finallyHandlers ++ s.given))) :
    l.Nodup ∧ ∀ n ∈ l, n < s.calls + 1 := by
  have hnew : s.calls ∉ s.finallyHandlers ++ s.given := fun hm => Nat.lt_irrefl _ (h.bound _ hm)
  refine ⟨hl.nodup_iff.2 (List.nodup_cons.2 ⟨hnew, h.once⟩), fun n hn => ?_⟩
  rcases List.mem_cons.1 (hl.mem_iff.1 hn) with rfl | hn
  · exact Nat.lt_succ_self _
  · exact Nat.lt_succ_of_lt (h.bound n hn)

theorem step (h : Ends s) (ht : Table s) (ho : Occupied s l) (hst : step c s l = some t) : Ends t := by
  have hsealed : s.isCompleted = true → s.isSealed = true := fun hc => (h.done hc).1.1
  have hactive : 0 ≤ s.active := by
    rw [ht.active]
    exact Int.natCast_nonneg _
  cases step_move hst with
  | spawns hu he =>
    refine h.same (.spawns hu he) (Quiet.spawns hu he).calls fun hc => ?_
    obtain ⟨f, rfl⟩ := hu.refused he (hsealed hc)
    rw [hu.eq.1]
    exact ⟨rfl, id⟩
  | complete co out d hm =>
    have hno := h.notCompleted ht hm
    have hse := SameEnd.told c d s co out
    refine Ends.tryComplete (s := s.told c d co out) ?_ (hse.isCompleted.trans hno) ?_ d ?_
    · have hcalls := Nat.le_trans (Quiet.ended c s co out).calls (told_aside c d s co out).calls
      refine h.same hse hcalls fun hc => ?_
      cases hc.symm.trans hno
    · rw [(ht.told (c := c) hm out d).1.active]
      exact Int.natCast_nonneg _
    · rcases ho with hs | hs
      · exact .inl (hse.isSealed.trans hs)
      · exact .inr (busy_of_occupied ht hm out d hs)
  | aside _ hturn =>
    exact h.same (.aside hturn.aside) hturn.aside.calls fun _ =>
      ⟨hturn.aside.active, hasPending_sublist hturn.aside.tasks⟩
  | seals _ d b _ hs =>
    have hopen : s.isCompleted = false := by grind
    have hseal : Ends (s.seal b) := by
      refine ⟨fun hc => ?_, h.event, h.silent, h.once, h.bound⟩
      cases hopen.symm.trans hc
    exact hseal.tryComplete hopen hactive d (.inl rfl)
  | late hc =>
    have hlog : (emit (newCall s) (.finallyCalled s.calls)).given = s.given ++ [s.calls] := by
      simp [St.given, emit, newCall, finallyCalls, Ev.finallyCalled?]
    obtain ⟨h1, h2⟩ := h.numbered (l := s.finallyHandlers ++ (s.given ++ [s.calls])) (by
      rw [← List.append_assoc]
      exact List.perm_append_singleton _ _)
    refine ⟨h.done, h.event, fun hno => ?_, ?_, ?_⟩
    · cases hc.symm.trans hno
    · rw [hlog]
      exact h1
    · rw [hlog]
      exact h2
  | registers hc =>
    obtain ⟨h1, h2⟩ := h.numbered (l := (s.finallyHandlers ++ [s.calls]) ++ s.given) (by
      rw [List.append_assoc]
      exact List.perm_middle)
    exact ⟨fun hyes => (by cases hc.symm.trans hyes), h.event, h.silent, h1, h2⟩
  | handler k n hs hk =>
    have hperm := (given_handler hk).append_left s.finallyHandlers
    refine ⟨h.done, h.event, fun hc => ?_, hperm.nodup_iff.2 h.once, fun m hm => h.bound m (hperm.mem_iff.1 hm)⟩
    exact List.perm_nil.1 (h.silent hc ▸ given_handler hk)
  | stopped k =>
    rw [set_done ho]
    exact h
  | again | cancelSpawner | closeScope => exact ⟨h.done, h.event, h.silent, h.once, h.bound⟩

end Ends

theorem ends_inductive (c : Cfg) :
    ((lts c).restrict fun s l => Fresh c s l ∧ Occupied s l).Inductive fun s =>
      (Table s ∧ Finishes s) ∧ Ends s where
  init s hi := by
    refine ⟨(finishes_inductive c).init s hi, ?_⟩
    rw [hi.2]
    exact Ends.create
  step s l t h hs :=
    ⟨(finishes_inductive c).step s l t h.1 ⟨hs.1.1, hs.2⟩, h.2.step h.1.1 hs.1.2 hs.2⟩

/-- A handler that was given to `finally()` waits, or it was given to a coroutine or called. -/
theorem handler_kept {t : St} {l : Lbl} {n : Nat} (ho : Occupied s l) (h : n ∈ s.finallyHandlers ++ s.given)
    (hst : step c s l = some t) : n ∈ t.finallyHandlers ++ t.given := by
  have hsame : ∀ {u : St}, SameEnd s u → n ∈ u.finallyHandlers ++ u.given := by
    intro u hu
    rw [hu.finallyHandlers, hu.given]
    exact h
  have htry : ∀ {u : St} (d : Bool), n ∈ u.finallyHandlers ++ u.given →
      n ∈ (tryComplete c d u).finallyHandlers ++ (tryComplete c d u).given := by
    intro u d hu
    refine tryComplete_rule (P := fun t => n ∈ t.finallyHandlers ++ t.given) d hu fun _ _ => ?_
    have hr := resolveWaiters_aside c d u
    refine List.mem_append_right _ ?_
    rw [given_finish, hr.due, hr.finallyHandlers, hr.finallyCalls]
    simp only [St.given, List.mem_append] at hu ⊢
    rcases hu with hu | hu | hu <;> simp [hu]
  cases step_move hst with
  | spawns hu he => exact hsame (.spawns hu he)
  | complete co out d _ => exact htry d (hsame (.told c d s co out))
  | aside _ ht => exact hsame (.aside ht.aside)
  | seals _ d b => exact htry (u := s.seal b) d h
  | late =>
    show n ∈ s.finallyHandlers ++ (s.due.flatten ++ finallyCalls (s.log ++ _))
    rw [finallyCalls_append, ← List.append_assoc, ← List.append_assoc]
    exact List.mem_append_left _ (List.append_assoc .. ▸ h)
  | registers =>
    rcases List.mem_append.1 h with h | h
    · exact List.mem_append_left _ (List.mem_append_left _ h)
    · exact List.mem_append_right _ h
  | handler k _ _ hk => exact ((given_handler hk).append_left s.finallyHandlers).mem_iff.2 h
  | stopped k =>
    rw [set_done ho]
    exact h
  | again | cancelSpawner | closeScope => exact h

/-- The coroutines of the handlers run to their ends. -/
theorem handlers_run (c : Cfg) (s : St) :
    ∃ ls t, ((lts c).restrict fun s l => Fresh c s l ∧ Occupied s l).Run s ls t ∧ t.due.flatten = [] ∧
      t.given.Perm s.given ∧ (t.terminal ↔ s.terminal) := by
  -- by induction on how many handlers are due
  generalize hn : s.due.flatten.length = n
  induction n generalizing s with
  | zero => exact ⟨[], s, .nil s, List.length_eq_zero_iff.1 hn, .refl _, Iff.rfl⟩
  | succ n ih =>
    obtain ⟨x, hx, hne⟩ := List.flatten_ne_nil_iff.1 (List.ne_nil_of_length_eq_add_one hn)
    obtain ⟨h, hs, rfl⟩ := List.exists_cons_of_ne_nil hne
    obtain ⟨k, hk⟩ := List.getElem?_of_mem hx
    have hlen := (flatten_perm_set hk).length_eq
    rw [hn, List.length_cons] at hlen
    obtain ⟨ls, t, hrun, hdone, hperm, hterm⟩ :=
      ih (emit { s with due := s.due.set k hs } (.finallyCalled h)) (Nat.succ.inj hlen).symm
    refine ⟨.callHandler k :: ls, t, .cons ⟨⟨trivial, trivial⟩, ?_⟩ hrun, hdone, hperm.trans (given_handler hk), hterm⟩
    show step c s (.callHandler k) = _
    simp only [step, hk]

/-- **Counterexamples.** The only task of an open group ends: its `finally()` handler is
called and its event is closed, and then the group takes a new task. A group is closed, and
the coroutine of its handler is cancelled before it has started: the handler is not called. -/
theorem early_notification :
    (∃ s, (lts ⟨0, 0, false⟩).Reachable s ∧ s.isSealed = false ∧ s.eventClosed = true ∧
      finallyCalls s.log = [1] ∧ s.active = 1) ∧
    ∃ s, (lts ⟨0, 0, false⟩).Reachable s ∧ s.terminal ∧ s.calls = 1 ∧ s.finallyHandlers ++ s.given = [] :=
  ⟨exists_run 0 0 false (by decide) (by decide)
    [.spawn, .finally_, .complete 0 (.result 7) false, .callHandler 0, .spawn] (by decide +kernel),
  exists_run 0 0 false (by decide) (by decide) [.finally_, .close false, .cancelHandlers 0] (by decide +kernel)⟩

/-- So it is whenever the last task of an open group ends. -/
theorem early_of_not_occupied {t : St} {call : Nat} {out : Outcome} {d : Bool}
    (ho : ¬ Occupied s (.complete call out d)) (hst : step c s (.complete call out d) = some t) :
    t.eventClosed = true ∧ ¬ t.terminal := by
  simp only [Occupied, not_or, Bool.not_eq_true] at ho
  obtain ⟨hopen, hact, hpend⟩ := ho
  cases step_move hst with
  | spawns hu => cases hu
  | aside hl => cases hl
  | again _ hs => cases hopen.symm.trans hs
  | seals _ _ _ hl => rcases hl with ⟨hl, -⟩ | ⟨x, hl, -⟩ <;> cases hl
  | complete co out d hm =>
    have hended : (s.ended co out).hasPending = false := ended_hasPending hpend
    have haside := notifyWaiters_aside c d ⟨co.key, co.call, out.task⟩ (s.ended co out)
    obtain ⟨-, -, hsealed, -⟩ := tryComplete_rest c d
      (notifyWaiters c d ⟨co.key, co.call, out.task⟩ (s.ended co out))
    rw [onCoroutineComplete_eq, St.told, drain_idle (.inl hended)]
    refine ⟨?_, fun hterm => ?_⟩
    · rcases tryComplete_cases c d (notifyWaiters c d ⟨co.key, co.call, out.task⟩ (s.ended co out))
        with ⟨hbusy, -⟩ | ⟨-, -, heq⟩
      -- nothing is active or pending behind the last task
      · rcases hbusy with hbusy | hbusy
        · rw [haside.active] at hbusy
          have hbusy : 0 < s.active - 1 := hbusy
          omega
        · cases (hasPending_sublist haside.tasks hended).symm.trans hbusy
      · rw [heq]
        rfl
    · have hs : s.isSealed = true := haside.isSealed ▸ (hsealed ▸ hterm.1)
      cases hopen.symm.trans hs

/-- **Terminal notifications.** In every fresh run in which an open group does not run
out of tasks and no coroutine of handlers is cancelled early: the event is closed only at
the end; from the call of `finally()` on the handler has been called once, or will be by a
coroutine, if the end has come, and not at all otherwise; and that coroutine calls it. -/
theorem terminal_notifications (c : Cfg) (s : St)
    (hr : ((lts c).restrict fun s l => Fresh c s l ∧ Occupied s l).Reachable s) :
    (s.eventClosed = true → s.terminal) ∧
    ∀ s' ls t, step c s .finally_ = some s' →
      ((lts c).restrict fun s l => Fresh c s l ∧ Occupied s l).Run s' ls t →
      t.due.flatten.count s.calls + (finallyCalls t.log).count s.calls = (if t.terminal then 1 else 0) ∧
      ∃ ls' u, ((lts c).restrict fun s l => Fresh c s l ∧ Occupied s l).Run t ls' u ∧ (u.terminal ↔ t.terminal) ∧
        (finallyCalls u.log).count s.calls = if t.terminal then 1 else 0 := by
  have hends := ((ends_inductive c).reachable s hr).2
  refine ⟨fun he => (hends.done (hends.event he)).1, fun s' ls t hst hrun => ?_⟩
  have hstep : ((lts c).restrict fun s l => Fresh c s l ∧ Occupied s l).step s .finally_ s' :=
    ⟨⟨trivial, trivial⟩, hst⟩
  have hr' := (hr.step hstep).run hrun
  obtain ⟨⟨-, hfin⟩, hend⟩ := (ends_inductive c).reachable t hr'
  have hstart : s.calls ∈ s'.finallyHandlers ++ s'.given := by
    cases hst
    unfold finally_
    split
    · simp [St.given, emit, newCall, finallyCalls, Ev.finallyCalled?]
    · exact List.mem_append_left _ (List.mem_append_right _ List.mem_cons_self)
  have hkept : s.calls ∈ t.finallyHandlers ++ t.given :=
    LTS.Run.keeps (M := (lts c).restrict fun s l => Fresh c s l ∧ Occupied s l)
      (P := fun u => s.calls ∈ u.finallyHandlers ++ u.given) (fun _ _ _ h hs => handler_kept hs.1.2 h hs.2) hrun hstart
  have hcount : t.given.count s.calls = if t.terminal then 1 else 0 := by
    split
    · rename_i hterm
      have hdone := hend.done (hfin hterm.1 hterm.2.1 hterm.2.2)
      rw [hdone.2, List.nil_append] at hkept
      have honce := hend.once
      rw [hdone.2, List.nil_append] at honce
      exact List.count_eq_one_of_mem honce hkept
    · grind [hend.done, hend.silent]
  obtain ⟨ls', u, hrun', hdone, hperm, hterm⟩ := handlers_run c t
  refine ⟨List.count_append.symm.trans hcount, ls', u, hrun', hterm, ?_⟩
  rw [← hcount, ← hperm.count_eq, St.given, hdone, List.nil_append]

/-- A handler of a group that is closed while its last task runs. -/
theorem terminal_notifications_closed :
    ∃ t : St, t.terminal ∧ t.due.flatten.count 1 + (finallyCalls t.log).count 1 = 1 := by
  obtain ⟨s, t, hr, hrun, h1, h2⟩ := exists_restricted_run_run
    (fun s l => Fresh ⟨0, 0, false⟩ s l ∧ Occupied s l) 0 0 false (by decide) (by decide) [.spawn]
    [.finally_, .spawn, .complete 0 (.result 7) false, .close false, .complete 2 (.result 8) false]
    (P := fun s t => s.calls = 1 ∧ t.terminal) (by decide +kernel)
  cases hrun with
  | cons hst hrest =>
    have hcount := ((terminal_notifications ⟨0, 0, false⟩ s hr).2 _ _ t hst.2 hrest).1
    rw [h1, if_pos h2] at hcount
    exact ⟨t, h2, hcount⟩

end PhpAsync.L2.TaskGroup
