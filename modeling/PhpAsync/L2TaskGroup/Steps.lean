import PhpAsync.L2TaskGroup.Model

/-!
# `Async\TaskGroup`: what a step does

The operations on the table of tasks as splits of the list, and each step by what it
does: what becomes of a call of `spawn()` (`Entered`), what a round of a loop over the
waiters does for the waiter it is at (`Visit`), how an iterator goes on (`Goes`), the
steps that only look after waiters and iterators (`Turn`), and all steps (`Move`).

`Aside` is what the steps that look after waiters have in common: they answer futures,
move iterators and, in a set, take delivered entries out of the table.
-/
namespace PhpAsync.L2.TaskGroup

open PhpAsync.Core PhpAsync.L1

/-! ## The table -/

theorem startFirst_some : ∀ {l l' : List Entry} {x : Entry}, startFirst l = some (x, l') →
    ∃ a b, l = a ++ x :: b ∧ l' = a ++ { x with task := .running } :: b ∧ x.task = .pending
  | [], _, _, h => by cases h
  | e :: es, l', x, h => by
    unfold startFirst at h
    split at h
    · rename_i hp
      cases h
      refine ⟨[], es, rfl, rfl, ?_⟩
      cases ht : e.task <;> rw [ht] at hp <;> first | rfl | cases hp
    · obtain ⟨⟨y, m⟩, hm, he⟩ := Option.map_eq_some_iff.1 h
      cases he
      obtain ⟨a, b, h1, h2, h3⟩ := startFirst_some hm
      exact ⟨e :: a, b, by rw [h1, List.cons_append], by rw [h2, List.cons_append], h3⟩

theorem startFirst_none : ∀ {l : List Entry}, startFirst l = none →
    ∀ e ∈ l, e.task.isPending = false
  | [], _, e, he => by cases he
  | x :: es, h, e, he => by
    unfold startFirst at h
    split at h
    · cases h
    · rename_i hp
      rcases List.mem_cons.1 he with rfl | he
      · simpa using hp
      · exact startFirst_none (Option.map_eq_none_iff.1 h) e he

variable {P : St → Prop} {c : Cfg} {key : Key} {l : List Entry} {s t : St}

theorem hasKey_iff : hasKey key l = true ↔ ∃ e ∈ l, e.key = key := by
  simp [hasKey]

theorem hasKey_false : hasKey key l = false ↔ ∀ e ∈ l, e.key ≠ key := by
  simp [hasKey]

/-- The entry that is found under `key` is the last one that has it. -/
theorem split_of_hasKey : ∀ {l : List Entry}, hasKey key l = true →
    ∃ a e b, l = a ++ e :: b ∧ e.key = key ∧ hasKey key b = false ∧
      (∀ t, settle key t l = a ++ { e with task := t } :: b) ∧ deleteKey key l = a ++ b
  | [], h => by cases h
  | e :: es, h => by
    cases hes : hasKey key es with
    | true =>
      obtain ⟨a, x, b, h1, h2, h3, h4, h5⟩ := split_of_hasKey hes
      refine ⟨e :: a, x, b, by rw [h1, List.cons_append], h2, h3, fun t => ?_, ?_⟩
      · rw [settle, if_pos hes, h4, List.cons_append]
      · rw [deleteKey, if_pos hes, h5, List.cons_append]
    | false =>
      have he : e.key = key := by
        obtain ⟨x, hx, hk⟩ := hasKey_iff.1 h
        rcases List.mem_cons.1 hx with rfl | hx
        · exact hk
        · exact absurd hk (hasKey_false.1 hes x hx)
      refine ⟨[], e, es, rfl, he, hes, fun t => ?_, ?_⟩
      · rw [settle, hes, if_neg Bool.false_ne_true, if_pos he, List.nil_append]
      · rw [deleteKey, hes, if_neg Bool.false_ne_true, if_pos he, List.nil_append]

theorem settle_of_not_hasKey (h : hasKey key l = false) (t : Task) : settle key t l = l := by
  cases l with
  | nil => rfl
  | cons e es => grind [hasKey, settle]

theorem deleteKey_of_not_hasKey (h : hasKey key l = false) : deleteKey key l = l := by
  cases l with
  | nil => rfl
  | cons e es => grind [hasKey, deleteKey]

theorem deleteKey_sublist (key : Key) (l : List Entry) : (deleteKey key l).Sublist l := by
  cases h : hasKey key l with
  | false => rw [deleteKey_of_not_hasKey h]
  | true =>
    obtain ⟨a, e, b, rfl, -, -, -, h5⟩ := split_of_hasKey h
    rw [h5]
    exact (List.sublist_cons_self e b).append_left a

theorem hasPending_false : s.hasPending = false ↔ ∀ e ∈ s.tasks, e.task.isPending = false := by
  simp [St.hasPending]

theorem hasPending_sublist (h : t.tasks.Sublist s.tasks) (hs : s.hasPending = false) : t.hasPending = false :=
  hasPending_false.2 fun e he => hasPending_false.1 hs e (h.subset he)

/-! ## Looking after waiters -/

def Ev.started? : Ev → Option Nat
  | .started call => some call
  | _ => none

def Ev.finallyCalled? : Ev → Option Nat
  | .finallyCalled h => some h
  | _ => none

/-- The tasks that were started, in order. -/
def started (log : List Ev) : List Nat := log.filterMap Ev.started?

/-- The `finally()` handlers that were called, in order. -/
def finallyCalls (log : List Ev) : List Nat := log.filterMap Ev.finallyCalled?

@[simp] theorem finallyCalls_append (l l' : List Ev) :
    finallyCalls (l ++ l') = finallyCalls l ++ finallyCalls l' := List.filterMap_append

theorem started_concat (l : List Ev) {e : Ev} (h : e.started? = none) : started (l ++ [e]) = started l := by
  simp [started, h]

theorem finallyCalls_concat (l : List Ev) {e : Ev} (h : e.finallyCalled? = none) :
    finallyCalls (l ++ [e]) = finallyCalls l := by
  simp [finallyCalls, h]

/-- From `s` to `t` waiters and iterators were looked after, and in a set tasks were
consumed. -/
structure Aside (c : Cfg) (s t : St) : Prop where
  coros : t.coros = s.coros
  active : t.active = s.active
  pendingCount : t.pendingCount = s.pendingCount
  spawners : t.spawners = s.spawners
  isSealed : t.isSealed = s.isSealed
  isCompleted : t.isCompleted = s.isCompleted
  eventClosed : t.eventClosed = s.eventClosed
  scopeClosed : t.scopeClosed = s.scopeClosed
  finallyHandlers : t.finallyHandlers = s.finallyHandlers
  due : t.due = s.due
  calls : s.calls ≤ t.calls
  started : started t.log = started s.log
  finallyCalls : finallyCalls t.log = finallyCalls s.log
  tasks : t.tasks.Sublist s.tasks
  group : c.taskSet = false → t.tasks = s.tasks

namespace Aside

variable {c : Cfg} {s t u : St}

theorem refl (c : Cfg) (s : St) : Aside c s s := by
  constructor <;> first | rfl | exact Nat.le_refl _ | exact List.Sublist.refl _ | exact fun _ => rfl

theorem trans (h : Aside c s t) (h' : Aside c t u) : Aside c s u where
  coros := h'.coros.trans h.coros
  active := h'.active.trans h.active
  pendingCount := h'.pendingCount.trans h.pendingCount
  spawners := h'.spawners.trans h.spawners
  isSealed := h'.isSealed.trans h.isSealed
  isCompleted := h'.isCompleted.trans h.isCompleted
  eventClosed := h'.eventClosed.trans h.eventClosed
  scopeClosed := h'.scopeClosed.trans h.scopeClosed
  finallyHandlers := h'.finallyHandlers.trans h.finallyHandlers
  due := h'.due.trans h.due
  calls := Nat.le_trans h.calls h'.calls
  started := h'.started.trans h.started
  finallyCalls := h'.finallyCalls.trans h.finallyCalls
  tasks := h'.tasks.trans h.tasks
  group hc := (h'.group hc).trans (h.group hc)

/-- Waiters, iterators and numbers do not matter. -/
theorem waiters (h : Aside c s t) (ws : List Waiter) (its : List Iter) {n : Nat} (hn : t.calls ≤ n) :
    Aside c s { t with waiters := ws, iters := its, calls := n } :=
  { h with calls := Nat.le_trans h.calls hn }

theorem newCall (h : Aside c s t) : Aside c s (newCall t) := h.waiters t.waiters t.iters (Nat.le_succ _)

theorem emit (h : Aside c s t) (e : Ev) (h1 : e.started? = none) (h2 : e.finallyCalled? = none) :
    Aside c s (emit t e) :=
  { h with
    started := (started_concat t.log h1).trans h.started
    finallyCalls := (finallyCalls_concat t.log h2).trans h.finallyCalls }

/-- The tasks `l` are left of those of `t`. -/
theorem left (h : Aside c s t) (hl : l.Sublist t.tasks) (hc : c.taskSet = true) : Aside c s { t with tasks := l } :=
  { h with
    tasks := hl.trans h.tasks
    group := fun hno => by rw [hc] at hno; cases hno }

theorem consume (h : Aside c s t) (key : Key) : Aside c s (consume c t key) := by
  unfold TaskGroup.consume
  split
  · rename_i hc
    exact h.left (deleteKey_sublist key t.tasks) hc
  · exact h

theorem consumeAll (h : Aside c s t) : Aside c s (consumeAll c t) := by
  unfold TaskGroup.consumeAll
  split
  · rename_i hc
    exact h.left (List.nil_sublist _) hc
  · exact h

theorem removeAt (h : Aside c s t) (i : Nat) : Aside c s (removeAt t i) := h.waiters _ t.iters (Nat.le_refl _)

theorem removeWaiter (h : Aside c s t) (id : Nat) : Aside c s (removeWaiter t id) := by
  unfold TaskGroup.removeWaiter
  split
  · exact h
  · exact h.removeAt _

theorem setIter (h : Aside c s t) (it : Nat) (x : Iter) : Aside c s (setIter t it x) :=
  h.waiters t.waiters _ (Nat.le_refl _)

end Aside

/-- Iterator `it` is not suspended, or it was woken. -/
def St.woken (s : St) (it : Nat) : Prop :=
  ∀ (pos w : Nat) (waker : Waker), s.iters[it]? = some ⟨pos, .parked w waker⟩ → waker.queued = true

/-- What a round of a loop over the waiters does for the waiter `w` at position `i`: after
the end of the task `o`, or without one in `task_group_try_complete`. The flag says that
`w` has left the vector. -/
inductive Visit (c : Cfg) (d : Bool) (o : Option Entry) (s : St) (i : Nat) (w : Waiter) : Bool → St → Prop
  | race (e : Entry) (ho : o = some e) (hk : w.kind = .race) :
      Visit c d o s i w true (removeAt (consume c (emit s (.answered w.id (.one e))) e.key) i)
  | any (a : Answer) (ho : ∀ e, o = some e → e.task.isError = false) (hk : w.kind = .any) :
      Visit c d o s i w true (removeAt (emit s (.answered w.id a)) i)
  | all (a : Answer) (l : List Entry) (ho : o = none) (hk : w.kind = .all ∨ w.kind = .allIgnoreErrors)
      (hl : l.Sublist s.tasks) (ha : a = .results l ∨ a = .composite l) :
      Visit c d o s i w true (removeAt (consumeAll c (emit s (.answered w.id a))) i)
  | skip (hr : w.kind = .race → o = none)
      (ho : o = none → w.kind = .race ∨ w.kind.isIterator = true) (hw : ∀ it, w.kind = .iterator it → s.woken it) :
      Visit c d o s i w false s
  | wake (it pos id : Nat) (waker : Waker) (hd : d = true) (hk : w.kind = .iterator it)
      (hit : s.iters[it]? = some ⟨pos, .parked id waker⟩) (hq : waker.queued = false) :
      Visit c d o s i w false (setIter s it ⟨pos, .parked id (waker.resume none)⟩)
  | leave (it pos id : Nat) (waker : Waker) (hd : d = false) (hk : w.kind = .iterator it)
      (hit : s.iters[it]? = some ⟨pos, .parked id waker⟩) (hq : waker.queued = false) :
      Visit c d o s i w true (removeAt (setIter s it ⟨pos, .parked id (waker.resume none)⟩) i)

section Functions

variable {c : Cfg} {d : Bool} {e : Entry} {i : Nat} {o : Option Entry} {s t : St} {w : Waiter}

theorem notifyIterator_visit {it : Nat} (hk : w.kind = .iterator it) :
    Visit c d o s i w (notifyIterator d s i it).2 (notifyIterator d s i it).1 := by
  have hskip : s.woken it → Visit c d o s i w false s := by
    intro hw
    refine .skip (by rw [hk]; exact nofun) (fun _ => .inr (by rw [hk]; rfl)) fun it' hk' => ?_
    cases hk.symm.trans hk'
    exact hw
  unfold notifyIterator
  split
  · rename_i pos id waker hit
    split
    · rename_i hq
      refine hskip fun pos' id' waker' hit' => ?_
      cases hit.symm.trans hit'
      exact hq
    · rename_i hq
      cases d with
      | true => exact .wake it pos id waker rfl hk hit (by simpa using hq)
      | false => exact .leave it pos id waker rfl hk hit (by simpa using hq)
  · rename_i hno
    exact hskip fun pos id waker hit => (hno pos id waker hit).elim

theorem notifyStep_visit {q : St × Nat} (hq : notifyStep c d e (s, i) = some q) :
    ∃ w g, s.waiters[i]? = some w ∧ Visit c d (some e) s i w g q.1 ∧ q.2 = if g then i else i + 1 := by
  obtain ⟨w, hw, rfl⟩ := Option.map_eq_some_iff.1 hq
  have hskip : w.kind ≠ .race → w.kind.isIterator = false → Visit c d (some e) s i w false s := fun hr hi =>
    .skip (fun hk => (hr hk).elim) nofun fun it hk => by rw [hk] at hi; cases hi
  cases hk : w.kind with
  | race => exact ⟨w, true, hw, .race e rfl hk, rfl⟩
  | any =>
    dsimp only
    split
    · exact ⟨w, false, hw, hskip (by rw [hk]; exact nofun) (by rw [hk]; rfl), rfl⟩
    · rename_i hok
      refine ⟨w, true, hw, .any _ (fun x hx => ?_) hk, rfl⟩
      cases hx
      simpa using hok
  | all => exact ⟨w, false, hw, hskip (by rw [hk]; exact nofun) (by rw [hk]; rfl), rfl⟩
  | allIgnoreErrors => exact ⟨w, false, hw, hskip (by rw [hk]; exact nofun) (by rw [hk]; rfl), rfl⟩
  | iterator it => exact ⟨w, _, hw, notifyIterator_visit hk, rfl⟩

/-- Where `task_group_try_complete` goes on. -/
def Kind.next (i : Nat) : Kind → Nat
  | .all | .any => i + 1
  | .allIgnoreErrors => i
  | .iterator _ | .race => i + 2

theorem resolveStep_visit {b : Bool} {q : St × Nat} (hq : resolveStep c d b (s, i) = some q) :
    ∃ w g, s.waiters[i]? = some w ∧ Visit c d none s i w g q.1 ∧ q.2 = w.kind.next i := by
  obtain ⟨w, hw, rfl⟩ := Option.map_eq_some_iff.1 hq
  cases hk : w.kind with
  | all =>
    refine ⟨w, true, hw, ?_, by rw [hk]; rfl⟩
    cases b with
    | true => exact .all _ (collectErrors s) rfl (.inl hk) List.filter_sublist (.inr rfl)
    | false => exact .all _ (collectResults s) rfl (.inl hk) List.filter_sublist (.inl rfl)
  | allIgnoreErrors =>
    exact ⟨w, true, hw, .all _ (collectResults s) rfl (.inr hk) List.filter_sublist (.inl rfl), by rw [hk]; rfl⟩
  | any => exact ⟨w, true, hw, .any _ nofun hk, by rw [hk]; rfl⟩
  | iterator it => exact ⟨w, _, hw, notifyIterator_visit hk, by rw [hk]; rfl⟩
  | race =>
    exact ⟨w, false, hw, .skip (fun _ => rfl) (fun _ => .inl hk) (by rw [hk]; exact nofun), by rw [hk]; rfl⟩

/-- What a round keeps, the loop behind the end of a task keeps. -/
theorem notifyWaiters_rule
    (hstep : ∀ {u : St} {i w g t}, u.waiters[i]? = some w → Visit c d (some e) u i w g t → P u → P t) (h : P s) :
    P (notifyWaiters c d e s) := by
  refine Loop.run_induct (P := fun p => P p.1) (fun p q hq hp => ?_) _ (s, 0) h
  obtain ⟨w, g, hw, hv, -⟩ := notifyStep_visit hq
  exact hstep hw hv hp

theorem resolveWaiters_rule
    (hstep : ∀ {u : St} {i w g t}, u.waiters[i]? = some w → Visit c d none u i w g t → P u → P t) (h : P s) :
    P (resolveWaiters c d s) := by
  refine Loop.run_induct (P := fun p => P p.1) (fun p q hq hp => ?_) _ (s, 0) h
  obtain ⟨w, g, hw, hv, -⟩ := resolveStep_visit hq
  exact hstep hw hv hp

theorem Visit.aside {g : Bool} (h : Visit c d o s i w g t) : Aside c s t := by
  have hrefl := Aside.refl c s
  cases h with
  | race e => exact ((hrefl.emit _ rfl rfl).consume _).removeAt i
  | any a => exact (hrefl.emit _ rfl rfl).removeAt i
  | all a => exact (hrefl.emit _ rfl rfl).consumeAll.removeAt i
  | skip => exact hrefl
  | wake it => exact hrefl.setIter it _
  | leave it => exact (hrefl.setIter it _).removeAt i

theorem resolveWaiters_aside (c : Cfg) (d : Bool) (s : St) : Aside c s (resolveWaiters c d s) :=
  resolveWaiters_rule (P := Aside c s) (fun _ hv h => h.trans hv.aside) (.refl c s)

theorem notifyWaiters_aside (c : Cfg) (d : Bool) (e : Entry) (s : St) : Aside c s (notifyWaiters c d e s) :=
  notifyWaiters_rule (P := Aside c s) (fun _ hv h => h.trans hv.aside) (.refl c s)

/-- The end of a group, or nothing. -/
theorem tryComplete_cases (c : Cfg) (d : Bool) (s : St) :
    ((0 < s.active ∨ s.hasPending = true) ∧ tryComplete c d s = s) ∨
    (s.active ≤ 0 ∧ s.hasPending = false ∧
      tryComplete c d s = finish (resolveWaiters c d s)) := by
  unfold tryComplete
  split
  · grind
  · grind

/-- What the loop of `task_group_try_complete` and what is behind it keep. -/
theorem tryComplete_rule (d : Bool) (h : P s)
    (hend : s.active ≤ 0 → s.hasPending = false → P (finish (resolveWaiters c d s))) : P (tryComplete c d s) := by
  rcases tryComplete_cases c d s with ⟨-, heq⟩ | ⟨ha, hp, heq⟩
  · rw [heq]
    exact h
  · rw [heq]
    exact hend ha hp

theorem tryComplete_group (hc : c.taskSet = false) (d : Bool) :
    (tryComplete c d s).tasks = s.tasks :=
  tryComplete_rule (P := fun t => t.tasks = s.tasks) d rfl fun _ _ => (resolveWaiters_aside c d s).group hc

/-- What a round of `task_group_drain` does: the first pending task runs, and the
head of the spawners is fired. -/
theorem drainStep_cases (h : drainStep c s = some t) :
    hasSlot c s = true ∧ s.scopeClosed = false ∧
    ∃ a x b, s.tasks = a ++ x :: b ∧ x.task = .pending ∧
      t = fireOneSlotWaiter { s with
        tasks := a ++ { x with task := .running } :: b
        pendingCount := (s.pendingCount + 4294967295) % 4294967296
        coros := s.coros ++ [⟨x.call, x.key⟩]
        active := s.active + 1
        log := s.log ++ [.started x.call] } := by
  unfold drainStep at h
  split at h
  · rename_i hc
    simp only [Bool.and_eq_true, Bool.not_eq_true'] at hc
    obtain ⟨⟨x, l⟩, hl, rfl⟩ := Option.map_eq_some_iff.1 h
    obtain ⟨a, b, h1, h2, h3⟩ := startFirst_some hl
    exact ⟨hc.1, hc.2, a, x, b, h1, h3, by rw [h2]⟩
  · cases h

theorem drainStep_none (h : drainStep c s = none) :
    hasSlot c s = false ∨ s.scopeClosed = true ∨ s.hasPending = false := by
  unfold drainStep at h
  split at h
  · exact .inr (.inr (hasPending_false.2 (startFirst_none (Option.map_eq_none_iff.1 h))))
  · grind

theorem fireOneSlotWaiter_eq (s : St) :
    fireOneSlotWaiter s = { s with spawners := (fireOneSlotWaiter s).spawners } := by
  unfold fireOneSlotWaiter
  split <;> rfl

/-- The pending tasks. -/
def St.pendings (s : St) : Nat := s.tasks.countP fun e => e.task.isPending

theorem drainStep_pendings (h : drainStep c s = some t) : t.pendings + 1 = s.pendings := by
  obtain ⟨-, -, a, x, b, h1, h2, rfl⟩ := drainStep_cases h
  rw [fireOneSlotWaiter_eq]
  unfold St.pendings
  rw [h1, List.countP_append, List.countP_append, List.countP_cons_of_neg,
    List.countP_cons_of_pos]
  · omega
  · rw [h2]; rfl
  · exact nofun

/-- The loop of `task_group_drain` ends for want of a slot, of a scope or of a pending
task. -/
theorem drain_stops (c : Cfg) (s : St) : drainStep c (drain c s) = none := by
  refine Loop.run_stops (P := fun _ => True) (fun _ _ _ h => h) St.pendings (fun s t _ h => ?_) _ s trivial
    List.countP_le_length
  have := drainStep_pendings h
  omega

/-- What a start keeps, `task_group_drain` keeps. -/
theorem drain_induct (h : ∀ s t, drainStep c s = some t → P s → P t) (hs : P s) :
    P (drain c s) := Loop.run_induct h _ s hs

/-- The state of the completion callback before `task_group_drain`. -/
def St.ended (s : St) (co : Coro) (out : Outcome) : St :=
  { s with
    coros := s.coros.erase co
    tasks := settle co.key out.task s.tasks
    active := s.active - 1 }

/-- The state of the completion callback before `task_group_try_complete`. -/
def St.told (s : St) (c : Cfg) (d : Bool) (co : Coro) (out : Outcome) : St :=
  notifyWaiters c d ⟨co.key, co.call, out.task⟩ (drain c (s.ended co out))

theorem onCoroutineComplete_eq (c : Cfg) (d : Bool) (s : St) (co : Coro) (out : Outcome) :
    onCoroutineComplete c d s co out = tryComplete c d (s.told c d co out) := rfl

theorem told_aside (c : Cfg) (d : Bool) (s : St) (co : Coro) (out : Outcome) :
    Aside c (drain c (s.ended co out)) (s.told c d co out) := notifyWaiters_aside c d _ _

theorem removeWaiter_eq (s : St) (id : Nat) :
    removeWaiter s id = { s with waiters := (removeWaiter s id).waiters } := by
  unfold removeWaiter
  split <;> rfl

/-- The group when it has just been sealed; `scope` says whether its scope is closed. -/
def St.seal (s : St) (scope : Bool) : St :=
  fireAllSlotWaiters { s with isSealed := true, scopeClosed := scope }

end Functions

/-! ## Calls of `spawn()` -/

/-- A spawner that runs on and finds room inserts a key that is not in the table. -/
def Fresh (c : Cfg) (s : St) : Lbl → Prop
  | .runSpawner call =>
    ∀ sp ∈ s.spawners, sp.call = call → sp.waker.error = none → s.isSealed = false →
      (hasSlot c s || !queueIsFull c s) = true → hasKey sp.key s.tasks = false
  | _ => True

instance (c : Cfg) (s : St) : ∀ l, Decidable (Fresh c s l) := by
  intro l
  unfold Fresh
  split <;> infer_instance

/-- `spawn()` has taken its number and its key. -/
def St.nextCall (s : St) : St :=
  { s with nextKey := (s.nextKey + 1) % 4294967296, calls := s.calls + 1 }

/-- A call that is made, or resumed, before it looks for a place; the proposition is a
reason of its own to throw. -/
inductive Called (s : St) : Lbl → Prop → St → Nat → Key → Prop
  | spawn : Called s .spawn True s.nextCall s.calls (.int s.nextKey)
  | spawnWithKey (key : Key) : Called s (.spawnWithKey key) True (newCall s) s.calls key
  | resumed (sp : Spawner) (hm : sp ∈ s.spawners) :
      Called s (.runSpawner sp.call) (sp.waker.error ≠ none) { s with spawners := s.spawners.erase sp } sp.call sp.key

/-- What becomes of the call. -/
inductive Entered (c : Cfg) (own fresh : Prop) (s : St) (call : Nat) (key : Key) : St → Prop
  | refused (f : Fail)
      (h : own ∨ s.isSealed = true ∨ s.isCompleted = true ∨ hasSlot c s = true ∧ s.scopeClosed = true) :
      Entered c own fresh s call key (emit s (.threw call f))
  | waits (ho : s.isSealed = false) (hslot : hasSlot c s = false) (hfull : queueIsFull c s = true) :
      Entered c own fresh s call key { s with spawners := s.spawners ++ [⟨call, key, false, .parked⟩] }
  | runs (ho : s.isSealed = false) (hkey : fresh → hasKey key s.tasks = false) (hslot : hasSlot c s = true)
      (hscope : s.scopeClosed = false) :
      Entered c own fresh s call key { s with
        tasks := s.tasks ++ [⟨key, call, .running⟩]
        coros := s.coros ++ [⟨call, key⟩]
        active := s.active + 1
        log := s.log ++ [.started call] }
  | queued (ho : s.isSealed = false) (hkey : fresh → hasKey key s.tasks = false) (hslot : hasSlot c s = false)
      (hroom : queueIsFull c s = false) :
      Entered c own fresh s call key { s with
        tasks := s.tasks ++ [⟨key, call, .pending⟩]
        pendingCount := (s.pendingCount + 1) % 4294967296 }

section Spawn

variable {call : Nat} {own fresh : Prop} {s t u : St} {l : Lbl}

theorem backPressure_entered (call : Nat) (ho : s.isSealed = false)
    (hkey : fresh → (hasSlot c s || !queueIsFull c s) = true → hasKey key s.tasks = false) :
    Entered c own fresh s call key (backPressure c s call key) := by
  unfold backPressure
  split
  · rename_i h
    simp only [Bool.and_eq_true, Bool.not_eq_true'] at h
    exact .waits ho h.1 h.2
  rename_i h
  unfold insert
  split
  · rename_i hslot
    split
    · rename_i hscope
      exact .refused _ (.inr (.inr (.inr ⟨hslot, hscope⟩)))
    · rename_i hscope
      exact .runs ho (fun hf => hkey hf (by rw [hslot]; rfl)) hslot (by simpa using hscope)
  · rename_i hslot
    have hroom : queueIsFull c s = false := by simpa [hslot] using h
    exact .queued ho (fun hf => hkey hf (by rw [hroom, Bool.not_false, Bool.or_true])) (by simpa using hslot) hroom

theorem doSpawn_entered (call : Nat) (key : Key) : Entered c True fresh s call key (doSpawn c s call key) := by
  unfold doSpawn
  split
  · exact .refused _ (.inl trivial)
  rename_i hs
  split
  · exact .refused _ (.inl trivial)
  split
  · exact .refused _ (.inl trivial)
  · rename_i hkey
    exact backPressure_entered call (by simpa using hs) fun _ _ => by simpa using hkey

theorem runSpawner_entered {sp : Spawner} (hm : sp ∈ s.spawners) :
    Entered c (sp.waker.error ≠ none) (Fresh c s (.runSpawner sp.call)) { s with spawners := s.spawners.erase sp }
      sp.call sp.key (runSpawner c s sp) := by
  unfold runSpawner
  dsimp only
  split
  · rename_i herr
    exact .refused _ (.inl (by rw [herr]; exact nofun))
  rename_i herr
  split
  · rename_i hs
    exact .refused _ (.inr (.inl hs))
  rename_i hs
  have ho : s.isSealed = false := by simpa using hs
  split
  · rename_i hdone
    exact .refused _ (.inr (.inr (.inl hdone)))
  · exact backPressure_entered sp.call ho fun hf => hf sp hm rfl herr ho

/-- Only numbers are given out, and one spawner may go. -/
theorem Called.eq (h : Called s l own u call key) :
    u = { s with nextKey := u.nextKey, calls := u.calls, spawners := u.spawners } ∧ s.calls ≤ u.calls := by
  cases h
  · exact ⟨rfl, Nat.le_succ _⟩
  · exact ⟨rfl, Nat.le_succ _⟩
  · exact ⟨rfl, Nat.le_refl _⟩

/-- A sealed group refuses every call. -/
theorem Called.refused (hu : Called s l own u call key) (he : Entered c own fresh u call key t)
    (hs : s.isSealed = true) : ∃ f, t = emit u (.threw call f) := by
  have hs : u.isSealed = true := by rw [hu.eq.1]; exact hs
  cases he with
  | refused f => exact ⟨f, rfl⟩
  | waits ho | runs ho | queued ho => cases hs.symm.trans ho

end Spawn

/-! ## Steps that look after waiters -/

/-- Iterator `it`, which is at `pos`, goes on. -/
inductive Goes (c : Cfg) (s : St) (it pos : Nat) : St → Prop
  | yields (e : Entry) (he : s.tasks[pos]? = some e) (hs : e.task.isSettled = true) :
      Goes c s it pos (yieldEntry c s it pos e)
  | parks (hno : ∀ e, s.tasks[pos]? = some e → e.task.isSettled = false)
      (hend : s.tasks[pos]? = none → (s.isSealed && s.settled) = false) : Goes c s it pos (parkIterator s it pos)
  | ends (hnone : s.tasks[pos]? = none) (hend : (s.isSealed && s.settled) = true) :
      Goes c s it pos (setIter (emit s (.ended it)) it ⟨pos, .ended⟩)
  | fails (e : Exn) : Goes c s it pos (setIter (emit s (.failed it e)) it ⟨pos, .failed⟩)

/-- The state in which it goes on: it has been created, or has left the vector. -/
inductive Resumes (s : St) : Lbl → St → Nat → Iter → Prop
  | iterate : Resumes s .iterate { s with iters := s.iters ++ [⟨0, .ready⟩] } s.iters.length ⟨0, .ready⟩
  | next (it pos : Nat) (hit : s.iters[it]? = some ⟨pos, .ready⟩) : Resumes s (.next it) s it ⟨pos, .ready⟩
  | run (it pos w : Nat) (waker : Waker) (hit : s.iters[it]? = some ⟨pos, .parked w waker⟩)
      (hq : waker.queued = true) : Resumes s (.runIterator it) (removeWaiter s w) it ⟨pos, .parked w waker⟩

/-- The label of a step that only looks after waiters. -/
def Lbl.isAside : Lbl → Bool
  | .all _ | .race | .any | .drop _ | .iterate | .next _ | .runIterator _ | .cancelIterator _
  | .cleanIterator _ => true
  | _ => false

/-- What such a step does: `all()`, `race()` and `any()` throw, answer at once or wait. -/
inductive Turn (c : Cfg) (s : St) : Lbl → St → Prop
  | threw (l : Lbl) (f : Fail) : Turn c s l (emit (newCall s) (.threw s.calls f))
  | one (l : Lbl) (e : Entry) (he : e ∈ s.tasks) (hs : e.task.isSettled = true) :
      Turn c s l (consume c (emit (newCall s) (.answered s.calls (.one e))) e.key)
  | all (l : Lbl) (a : Answer) (es : List Entry) (hs : s.settled = true) (hl : es.Sublist s.tasks)
      (ha : a = .results es ∨ a = .composite es) :
      Turn c s l (consumeAll c (emit (newCall s) (.answered s.calls a)))
  | rejected (hs : s.settled = true) (hne : s.tasks ≠ []) (hno : ∀ e ∈ s.tasks, e.task.isCompleted = false) :
      Turn c s .any (emit (newCall s) (.answered s.calls (.composite (collectErrors s))))
  | waits (l : Lbl) (kind : Kind) (hk : kind.isIterator = false) : Turn c s l (addWaiter (newCall s) s.calls kind)
  | drop (w : Waiter) (hw : w ∈ s.waiters) (hk : w.kind.isIterator = false) :
      Turn c s (.drop w.id) (removeWaiter s w.id)
  | goes {l : Lbl} {u t : St} {it : Nat} {x : Iter} (hu : Resumes s l u it x) (hg : Goes c u it x.pos t) :
      Turn c s l t
  | cancelIterator (it pos w : Nat) (waker : Waker)
      (hit : s.iters[it]? = some ⟨pos, .parked w waker⟩) :
      Turn c s (.cancelIterator it) (setIter s it ⟨pos, .parked w waker.cancel⟩)
  | cleanIterator (it pos w : Nat) (waker : Waker)
      (hit : s.iters[it]? = some ⟨pos, .parked w waker⟩) (hq : waker.queued = true) :
      Turn c s (.cleanIterator it) (removeWaiter s w)

section Turn

variable {it pos : Nat} {l : Lbl} {s t u : St} {x : Iter}

theorem moveForward_goes (it pos : Nat) : Goes c s it pos (moveForward c s it pos) := by
  unfold moveForward
  split
  · rename_i e he
    split
    · rename_i hs
      exact .yields e he hs
    · rename_i hs
      refine .parks (fun x hx => ?_) fun hno => by cases he.symm.trans hno
      cases he.symm.trans hx
      simpa using hs
  · rename_i hnone
    split
    · rename_i hend
      exact .ends hnone hend
    · rename_i hend
      exact .parks (fun x hx => by cases hnone.symm.trans hx) fun _ => by simpa using hend

theorem all_turn (l : Lbl) (ignoreErrors : Bool) : Turn c s l (all c (newCall s) s.calls ignoreErrors) := by
  unfold all
  split
  · rename_i hs
    split
    · exact .all l _ _ hs List.filter_sublist (.inr rfl)
    · exact .all l _ _ hs List.filter_sublist (.inl rfl)
  · exact .waits l _ (by cases ignoreErrors <;> rfl)

theorem race_turn : Turn c s .race (race c (newCall s) s.calls) := by
  unfold race
  split
  · exact .threw _ _
  split
  · rename_i e hfind
    exact .one _ e (List.mem_of_find?_eq_some hfind) (by simpa using List.find?_some hfind)
  · exact .waits _ _ rfl

theorem any_turn : Turn c s .any (any c (newCall s) s.calls) := by
  unfold any
  split
  · exact .threw _ _
  rename_i hne
  split
  · rename_i e hfind
    refine .one _ e (List.mem_of_find?_eq_some hfind) ?_
    rw [Task.isSettled, List.find?_some hfind]
    rfl
  rename_i hfind
  split
  · rename_i hs
    exact .rejected hs (by simpa [newCall] using hne) fun e he => by simpa using List.find?_eq_none.1 hfind e he
  · exact .waits _ _ rfl

theorem step_turn (hl : l.isAside = true) (h : step c s l = some t) : Turn c s l t := by
  cases l with
  | all b => cases h; exact all_turn _ b
  | race => cases h; exact race_turn
  | any => cases h; exact any_turn
  | drop id =>
    obtain ⟨hany, ⟨⟩⟩ := Option.ite_none_right_eq_some.1 h
    obtain ⟨w, hw, hp⟩ := List.any_eq_true.1 hany
    simp only [Bool.and_eq_true, decide_eq_true_eq, Bool.not_eq_true'] at hp
    obtain ⟨rfl, hk⟩ := hp
    exact .drop w hw hk
  | iterate => cases h; exact .goes .iterate (moveForward_goes _ _)
  | next it =>
    simp only [step] at h
    split at h
    · rename_i pos hit
      cases h
      exact .goes (.next it pos hit) (moveForward_goes it pos)
    · cases h
  | runIterator it =>
    simp only [step] at h
    split at h
    · rename_i pos w waker hit
      obtain ⟨hq, ⟨⟩⟩ := Option.ite_none_right_eq_some.1 h
      refine .goes (.run it pos w waker hit hq) ?_
      unfold runIterator
      split
      · exact .fails _
      · exact moveForward_goes it pos
    · cases h
  | cancelIterator it =>
    simp only [step] at h
    split at h
    · rename_i pos w waker hit
      cases h
      exact .cancelIterator it pos w waker hit
    · cases h
  | cleanIterator it =>
    simp only [step] at h
    split at h
    · rename_i pos w waker hit
      obtain ⟨hq, ⟨⟩⟩ := Option.ite_none_right_eq_some.1 h
      exact .cleanIterator it pos w waker hit hq
    · cases h
  | _ => cases hl

theorem Resumes.eq (h : Resumes s l u it x) : u = { s with waiters := u.waiters, iters := u.iters } := by
  cases h
  · rfl
  · rfl
  · unfold removeWaiter
    split <;> rfl

theorem Resumes.tasks (h : Resumes s l u it x) : u.tasks = s.tasks := by rw [h.eq]

theorem Resumes.get (h : Resumes s l u it x) : u.iters[it]? = some x := by
  cases h with
  | iterate => simp
  | next _ _ hit => exact hit
  | run _ _ _ _ hit => rw [removeWaiter_eq]; exact hit

theorem Goes.aside (h : Goes c s it pos t) : Aside c s t := by
  have hrefl := Aside.refl c s
  cases h with
  | yields e =>
    have hy := hrefl.emit (.yielded it e) rfl rfl
    unfold yieldEntry
    split
    · exact (hy.setIter it _).consume _
    · exact hy.setIter it _
  | parks => exact hrefl.waiters _ _ (Nat.le_succ _)
  | ends => exact (hrefl.emit _ rfl rfl).setIter it _
  | fails => exact (hrefl.emit _ rfl rfl).setIter it _

theorem Turn.aside (h : Turn c s l t) : Aside c s t := by
  have hrefl := Aside.refl c s
  cases h with
  | threw => exact hrefl.newCall.emit _ rfl rfl
  | one => exact (hrefl.newCall.emit _ rfl rfl).consume _
  | all => exact (hrefl.newCall.emit _ rfl rfl).consumeAll
  | rejected => exact hrefl.newCall.emit _ rfl rfl
  | waits => exact hrefl.waiters _ s.iters (Nat.le_succ _)
  | drop => exact hrefl.removeWaiter _
  | goes hu hg =>
    have ha := hg.aside
    rw [hu.eq] at ha
    exact (hrefl.waiters _ _ (Nat.le_refl _)).trans ha
  | cancelIterator => exact hrefl.setIter _ _
  | cleanIterator => exact hrefl.removeWaiter _

end Turn

/-! ## Steps -/

/-- Every step. `close()` and `cancel()` do nothing to a group that is sealed. -/
inductive Move (c : Cfg) (s : St) : Lbl → St → Prop
  | spawns {l : Lbl} {own : Prop} {u t : St} {call : Nat} {key : Key} (hu : Called s l own u call key)
      (he : Entered c own (Fresh c s l) u call key t) : Move c s l t
  | cancelSpawner (call : Nat) :
      Move c s (.cancelSpawner call)
        { s with
          spawners := s.spawners.map fun sp =>
            if sp.call = call then { sp with waker := sp.waker.cancel } else sp }
  | complete (co : Coro) (out : Outcome) (d : Bool) (hm : co ∈ s.coros) :
      Move c s (.complete co.call out d) (onCoroutineComplete c d s co out)
  | aside {l : Lbl} {t : St} (hl : l.isAside = true) (ht : Turn c s l t) : Move c s l t
  | again (l : Lbl) (hs : s.isSealed = true) : Move c s l s
  | seals (l : Lbl) (d b : Bool)
      (hl : l = .close d ∧ b = s.scopeClosed ∨ ∃ x, l = .cancel d x ∧ b = (s.scopeClosed || x))
      (hs : s.isSealed = false) (hb : s.scopeClosed = true → b = true) : Move c s l (tryComplete c d (s.seal b))
  | late (hc : s.isCompleted = true) : Move c s .finally_ (emit (newCall s) (.finallyCalled s.calls))
  | registers (hc : s.isCompleted = false) :
      Move c s .finally_ { newCall s with finallyHandlers := s.finallyHandlers ++ [s.calls] }
  | handler (k h : Nat) (hs : List Nat) (hk : s.due[k]? = some (h :: hs)) :
      Move c s (.callHandler k) (emit { s with due := s.due.set k hs } (.finallyCalled h))
  | stopped (k : Nat) : Move c s (.cancelHandlers k) { s with due := s.due.set k [] }
  | closeScope : Move c s .closeScope { s with scopeClosed := true }

theorem step_move {s' : St} {l : Lbl} (h : step c s l = some s') : Move c s l s' := by
  cases hl : l.isAside with
  | true => exact .aside hl (step_turn hl h)
  | false =>
    cases l with
    | spawn => cases h; exact .spawns .spawn (doSpawn_entered _ _)
    | spawnWithKey key => cases h; exact .spawns (.spawnWithKey key) (doSpawn_entered _ _)
    | runSpawner call =>
      obtain ⟨sp, hsp, rfl⟩ := Option.map_eq_some_iff.1 h
      have hp := List.find?_some hsp
      simp only [Bool.and_eq_true, decide_eq_true_eq] at hp
      obtain ⟨rfl, -⟩ := hp
      have hm := List.mem_of_find?_eq_some hsp
      exact .spawns (.resumed sp hm) (runSpawner_entered hm)
    | cancelSpawner call =>
      obtain ⟨-, ⟨⟩⟩ := Option.ite_none_right_eq_some.1 h
      exact .cancelSpawner call
    | complete call out d =>
      obtain ⟨co, hco, rfl⟩ := Option.map_eq_some_iff.1 h
      have hp := List.find?_some hco
      simp only [decide_eq_true_eq] at hp
      subst hp
      exact .complete co out d (List.mem_of_find?_eq_some hco)
    | close d =>
      cases h
      unfold close
      cases hs : s.isSealed with
      | true => exact .again _ hs
      | false => exact .seals _ d s.scopeClosed (.inl ⟨rfl, rfl⟩) hs id
    | cancel d b =>
      cases h
      unfold cancel
      cases hs : s.isSealed with
      | true => exact .again _ hs
      | false => exact .seals _ d (s.scopeClosed || b) (.inr ⟨b, rfl, rfl⟩) hs fun h => by rw [h]; rfl
    | finally_ =>
      cases h
      unfold finally_
      split
      · rename_i hc
        exact .late hc
      · rename_i hc
        exact .registers (Bool.not_eq_true _ ▸ hc)
    | callHandler k =>
      dsimp only [step] at h
      split at h <;> cases h
      rename_i hk
      exact .handler k _ _ hk
    | cancelHandlers k =>
      obtain ⟨-, ⟨⟩⟩ := Option.ite_none_right_eq_some.1 h
      exact .stopped k
    | closeScope => cases h; exact .closeScope
    | _ => cases hl

/-! ## What the end of a group looks at -/

/-- From `s` to `t` neither the flags of the group nor its `finally()` handlers changed. -/
structure SameEnd (s t : St) : Prop where
  isSealed : t.isSealed = s.isSealed
  isCompleted : t.isCompleted = s.isCompleted
  eventClosed : t.eventClosed = s.eventClosed
  finallyHandlers : t.finallyHandlers = s.finallyHandlers
  due : t.due = s.due
  finallyCalls : finallyCalls t.log = finallyCalls s.log

namespace SameEnd

variable {c : Cfg} {s t u : St}

theorem refl (s : St) : SameEnd s s := ⟨rfl, rfl, rfl, rfl, rfl, rfl⟩

theorem trans (h : SameEnd s t) (h' : SameEnd t u) : SameEnd s u :=
  ⟨h'.isSealed.trans h.isSealed, h'.isCompleted.trans h.isCompleted,
    h'.eventClosed.trans h.eventClosed, h'.finallyHandlers.trans h.finallyHandlers,
    h'.due.trans h.due, h'.finallyCalls.trans h.finallyCalls⟩

theorem aside (h : Aside c s t) : SameEnd s t :=
  ⟨h.isSealed, h.isCompleted, h.eventClosed, h.finallyHandlers, h.due, h.finallyCalls⟩

theorem drain (c : Cfg) (s : St) : SameEnd s (drain c s) := by
  refine drain_induct (P := SameEnd s) (fun t u htu h => ?_) (.refl s)
  obtain ⟨-, -, a, x, b, -, -, rfl⟩ := drainStep_cases htu
  rw [fireOneSlotWaiter_eq]
  exact { h with finallyCalls := (finallyCalls_concat t.log rfl).trans h.finallyCalls }

theorem spawns {own fresh : Prop} {l : Lbl} {call : Nat} (hu : Called s l own u call key)
    (he : Entered c own fresh u call key t) : SameEnd s t := by
  have h : SameEnd s u := by rw [hu.eq.1]; exact ⟨rfl, rfl, rfl, rfl, rfl, rfl⟩
  cases he with
  | refused | runs => exact { h with finallyCalls := (finallyCalls_concat u.log rfl).trans h.finallyCalls }
  | waits | queued => exact { h with }

/-- A completion up to `task_group_try_complete`. -/
theorem told (c : Cfg) (d : Bool) (s : St) (co : Coro) (out : Outcome) : SameEnd s (s.told c d co out) := by
  have he : SameEnd s (s.ended co out) := ⟨rfl, rfl, rfl, rfl, rfl, rfl⟩
  exact (he.trans (.drain c _)).trans (.aside (told_aside c d s co out))

end SameEnd

/-! ## What the waiters look at -/

/-- What a consumer gets to see. -/
def Ev.isDelivery : Ev → Bool
  | .answered _ _ | .yielded _ _ | .ended _ | .failed _ _ => true
  | _ => false

def deliveries (log : List Ev) : List Ev := log.filter Ev.isDelivery

theorem deliveries_concat (l : List Ev) {e : Ev} (h : e.isDelivery = false) : deliveries (l ++ [e]) = deliveries l := by
  simp [deliveries, h]

/-- From `s` to `t` no waiter and no iterator was touched, and nothing was delivered. -/
structure Quiet (s t : St) : Prop where
  waiters : t.waiters = s.waiters
  iters : t.iters = s.iters
  calls : s.calls ≤ t.calls
  deliveries : deliveries t.log = deliveries s.log

namespace Quiet

variable {c : Cfg} {s t u : St}

theorem spawns {own fresh : Prop} {l : Lbl} {call : Nat} (hu : Called s l own u call key)
    (he : Entered c own fresh u call key t) : Quiet s t := by
  obtain ⟨heq, hcalls⟩ := hu.eq
  have h : Quiet s u := by rw [heq]; exact ⟨rfl, rfl, hcalls, rfl⟩
  cases he with
  | refused | runs => exact { h with deliveries := (deliveries_concat u.log rfl).trans h.deliveries }
  | waits | queued => exact { h with }

/-- A completion up to its loop over the waiters. -/
theorem ended (c : Cfg) (s : St) (co : Coro) (out : Outcome) :
    Quiet s (TaskGroup.drain c (s.ended co out)) := by
  refine drain_induct (P := Quiet s) (fun t u htu h => ?_) ⟨rfl, rfl, Nat.le_refl _, rfl⟩
  obtain ⟨-, -, a, x, b, -, -, rfl⟩ := drainStep_cases htu
  rw [fireOneSlotWaiter_eq]
  exact { h with deliveries := (deliveries_concat t.log rfl).trans h.deliveries }

theorem finish (s : St) : Quiet s (finish s) := by
  exact ⟨rfl, rfl, Nat.le_refl _, deliveries_concat s.log rfl⟩

theorem finally_ {l : List Nat} : Quiet s { newCall s with finallyHandlers := l } := ⟨rfl, rfl, Nat.le_succ _, rfl⟩

theorem late : Quiet s (emit (newCall s) (.finallyCalled s.calls)) :=
  ⟨rfl, rfl, Nat.le_succ _, deliveries_concat s.log rfl⟩

theorem handler {l : List (List Nat)} (h : Nat) : Quiet s (emit { s with due := l } (.finallyCalled h)) :=
  ⟨rfl, rfl, Nat.le_refl _, deliveries_concat s.log rfl⟩

theorem stopped {l : List (List Nat)} : Quiet s { s with due := l } := ⟨rfl, rfl, Nat.le_refl _, rfl⟩

end Quiet

/-- A group that is completed was sealed. -/
theorem completed_inductive (c : Cfg) :
    (lts c).Inductive fun s => s.isCompleted = true → s.isSealed = true where
  init s hi := by
    rw [hi.2]
    exact id
  step s l t h hst := by
    have hsame : ∀ {u : St}, SameEnd s u → u.isCompleted = true → u.isSealed = true := by
      intro u hu
      rw [hu.isCompleted, hu.isSealed]
      exact h
    have htry : ∀ {u : St} (d : Bool), (u.isCompleted = true → u.isSealed = true) →
        (tryComplete c d u).isCompleted = true → (tryComplete c d u).isSealed = true := by
      intro u d hu
      refine tryComplete_rule (P := fun t => t.isCompleted = true → t.isSealed = true) d hu fun _ _ => ?_
      have hr := resolveWaiters_aside c d u
      show ((resolveWaiters c d u).isCompleted || (resolveWaiters c d u).isSealed) = true →
        (resolveWaiters c d u).isSealed = true
      rw [hr.isCompleted, hr.isSealed, Bool.or_eq_true]
      exact fun ho => ho.elim hu id
    cases step_move hst with
    | spawns hu he => exact hsame (.spawns hu he)
    | complete co out d _ => exact htry d (hsame (.told c d s co out))
    | aside _ ht => exact hsame (.aside ht.aside)
    | seals _ d => exact htry d fun _ => rfl
    | _ => exact h

/-! ## Runs given by their labels -/

theorem construct_some {n q : Nat} (hn : n < 4294967296) (hq : q < 4294967296) (b : Bool) :
    construct n (some q) b = .ok ⟨n, q, b⟩ := by
  unfold construct
  rw [if_neg (by omega)]
  dsimp only
  rw [if_neg (by omega)]
  rfl

theorem create_init {n q : Nat} (hn : n < 4294967296) (hq : q < 4294967296) (b : Bool) :
    Init ⟨n, q, b⟩ create := ⟨⟨n, some q, b, construct_some hn hq b⟩, rfl⟩

theorem construct_lt {concurrency : Int} {queueLimit : Option Int} {taskSet : Bool}
    (h : construct concurrency queueLimit taskSet = .ok c) :
    c.concurrency < 4294967296 ∧ c.queueLimit < 4294967296 := by
  unfold construct at h
  split at h
  · cases h
  split at h
  · grind
  · grind

theorem exists_run (n q : Nat) (b : Bool) (hn : n < 4294967296) (hq : q < 4294967296)
    (labels : List Lbl) [DecidablePred P]
    (h : (LTS.exec (step ⟨n, q, b⟩) create labels).any (P ·) = true) :
    ∃ s, (lts ⟨n, q, b⟩).Reachable s ∧ P s :=
  LTS.exists_of_exec (create_init hn hq b) labels h

theorem exists_run_step (n q : Nat) (b : Bool) (hn : n < 4294967296) (hq : q < 4294967296)
    (labels : List Lbl) (l : Lbl) {P : St → St → Prop} [∀ s t, Decidable (P s t)]
    (h : ((LTS.exec (step ⟨n, q, b⟩) create labels).any fun s =>
      (step ⟨n, q, b⟩ s l).any (P s ·)) = true) :
    ∃ s t, (lts ⟨n, q, b⟩).Reachable s ∧ step ⟨n, q, b⟩ s l = some t ∧ P s t :=
  LTS.exists_step_of_exec (create_init hn hq b) labels l h

theorem exists_run_run (n q : Nat) (b : Bool) (hn : n < 4294967296) (hq : q < 4294967296)
    (labels labels' : List Lbl) {P : St → St → Prop} [∀ s t, Decidable (P s t)]
    (h : ((LTS.exec (step ⟨n, q, b⟩) create labels).any fun s =>
      (LTS.exec (step ⟨n, q, b⟩) s labels').any (P s ·)) = true) :
    ∃ s t, (lts ⟨n, q, b⟩).Reachable s ∧ (lts ⟨n, q, b⟩).Run s labels' t ∧ P s t :=
  LTS.exists_run_of_exec (create_init hn hq b) labels labels' h

theorem exists_restricted_run (G : St → Lbl → Prop) [∀ s l, Decidable (G s l)] (n q : Nat) (b : Bool)
    (hn : n < 4294967296) (hq : q < 4294967296) (labels : List Lbl) [DecidablePred P]
    (h : (LTS.execG G (step ⟨n, q, b⟩) create labels).any (P ·) = true) :
    ∃ s, ((lts ⟨n, q, b⟩).restrict G).Reachable s ∧ P s :=
  LTS.exists_of_execG (create_init hn hq b) labels h

theorem exists_restricted_run_run (G : St → Lbl → Prop) [∀ s l, Decidable (G s l)] (n q : Nat)
    (b : Bool) (hn : n < 4294967296) (hq : q < 4294967296) (labels labels' : List Lbl)
    {P : St → St → Prop} [∀ s t, Decidable (P s t)]
    (h : ((LTS.execG G (step ⟨n, q, b⟩) create labels).any fun s =>
      (LTS.execG G (step ⟨n, q, b⟩) s labels').any (P s ·)) = true) :
    ∃ s t, ((lts ⟨n, q, b⟩).restrict G).Reachable s ∧
      ((lts ⟨n, q, b⟩).restrict G).Run s labels' t ∧ P s t :=
  LTS.exists_run_of_execG (create_init hn hq b) labels labels' h

end PhpAsync.L2.TaskGroup
