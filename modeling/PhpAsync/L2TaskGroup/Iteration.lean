import PhpAsync.L2TaskGroup.Resolve
import PhpAsync.L2TaskGroup.Terminal

/-!
# `Async\TaskGroup`: iteration

An iterator of a group holds a position in the table. It yields the entry there once it
has settled, ends behind the last entry of a group that is sealed and has settled, and
suspends otherwise.

**Order (`Follows`).** The table of a group only grows, at its end, and a settled entry
stays as it is (`Grows`). So what an iterator has yielded is the table up to its
position, and an iterator that has ended has yielded all of it. This needs that no
duplicate key is inserted (`Fresh`).

**Wake-ups (`Attends`).** The end of a task wakes every suspended iterator. `close()` and
`cancel()` on a group that has settled wake only those that the loop of
`task_group_try_complete` comes to: of two suspended iterators the second one sleeps for
ever (`second_iterator_sleeps`). `Heard` leaves these calls out; without it one sleeps
(`sleeps_of_not_heard`).

`iteration_in_order` holds in every fresh run in which the iterators are heard.
-/
namespace PhpAsync.L2.TaskGroup

open PhpAsync.Core PhpAsync.L1

/-! ## What an iterator has yielded -/

def Ev.yield? (it : Nat) : Ev → Option Entry
  | .yielded it' e => if it' = it then some e else none
  | _ => none

/-- The entries iterator `it` has yielded, in order. -/
def yields (it : Nat) (log : List Ev) : List Entry := log.filterMap (Ev.yield? it)

@[simp] theorem yields_append (it : Nat) (l l' : List Ev) :
    yields it (l ++ l') = yields it l ++ yields it l' := List.filterMap_append

theorem yields_deliveries (it : Nat) (log : List Ev) : yields it (deliveries log) = yields it log := by
  unfold yields deliveries
  rw [List.filterMap_filter]
  refine List.filterMap_congr fun e _ => ?_
  cases e <;> rfl

theorem yields_concat {it : Nat} {log : List Ev} {e : Ev} (he : e.yield? it = none) :
    yields it (log ++ [e]) = yields it log := by
  rw [yields_append]
  show _ ++ List.filterMap (Ev.yield? it) [e] = _
  rw [List.filterMap_cons_none he, List.filterMap_nil, List.append_nil]

theorem Quiet.yields {s t : St} (h : Quiet s t) (it : Nat) :
    yields it t.log = yields it s.log := by
  rw [← yields_deliveries, h.deliveries, yields_deliveries]

/-! ## The table of a group -/

/-- Every entry keeps its place, and what is added has not settled. -/
structure Grows (l : Lbl) (a b : List Entry) : Prop where
  stays : ∀ (i : Nat) (x : Entry), a[i]? = some x → ∃ y, b[i]? = some y ∧ Advance l x y
  added : ∀ (i : Nat) (y : Entry), b[i]? = some y → a.length ≤ i → y.task.isSettled = false

theorem getElem?_of_forall₂ {α β : Type} {R : α → β → Prop} : ∀ {a : List α} {b : List β},
    List.Forall₂ R a b → ∀ {i : Nat} {x : α}, a[i]? = some x → ∃ y, b[i]? = some y ∧ R x y
  | _, _, .cons hx _, 0, _, h => by
    cases h
    exact ⟨_, rfl, hx⟩
  | _, _, .cons _ t, _ + 1, _, h => getElem?_of_forall₂ t h

theorem Evolves.grows {c : Cfg} {l : Lbl} {a b : List Entry} (hc : c.taskSet = false)
    (h : Evolves c l a b) : Grows l a b := by
  cases h with
  | advanced m ha _ hg =>
    rw [hg hc]
    refine ⟨fun i x hx => getElem?_of_forall₂ ha hx, fun i y hy hi => ?_⟩
    have hlt := (List.getElem?_eq_some_iff.1 hy).1
    have hlen := ha.length_eq
    omega
  | added x heq hx _ =>
    rw [heq]
    refine ⟨fun i y hy => ⟨y, ?_, .stays⟩, fun i y hy hi => ?_⟩
    · rw [List.getElem?_append_left (List.getElem?_eq_some_iff.1 hy).1]
      exact hy
    · rw [List.getElem?_append_right hi] at hy
      have hm := List.mem_singleton.1 (List.mem_of_getElem? hy)
      rw [hm]
      rcases hx with hx | hx <;> rw [hx] <;> rfl

namespace Grows

variable {l : Lbl} {a b : List Entry}

/-- A settled entry does not change. -/
theorem of_settled (h : Grows l a b) {i : Nat} {x : Entry} (hx : a[i]? = some x)
    (hs : x.task.isSettled = true) : b[i]? = some x := by
  obtain ⟨y, hy, hadv⟩ := h.stays i x hx
  cases hadv with
  | stays => exact hy
  | starts hp => rw [hp] at hs; cases hs
  | ends hr => rw [hr] at hs; cases hs

/-- Nor does a settled beginning of the table. -/
theorem take (h : Grows l a b) {n : Nat} (hn : n ≤ a.length)
    (hs : ∀ e ∈ a.take n, e.task.isSettled = true) : b.take n = a.take n := by
  refine List.ext_getElem? fun i => ?_
  rw [List.getElem?_take, List.getElem?_take]
  split
  · rename_i hi
    have hx : a[i]? = some a[i] := List.getElem?_eq_getElem (by omega)
    rw [hx]
    refine h.of_settled hx (hs _ ?_)
    exact List.mem_of_getElem? (i := i) (by rw [List.getElem?_take, if_pos hi]; exact hx)
  · rfl

theorem length (h : Grows l a b) : a.length ≤ b.length := by
  cases hlen : a.length with
  | zero => exact Nat.zero_le _
  | succ n =>
    have hx : a[n]? = some a[n] := List.getElem?_eq_getElem (by omega)
    obtain ⟨y, hy, -⟩ := h.stays n _ hx
    exact (List.getElem?_eq_some_iff.1 hy).1

/-- Only the end of a task settles an entry. -/
theorem unsettled (h : Grows l a b) (hl : ∀ call out d, l ≠ .complete call out d) {i : Nat}
    (ha : ∀ x, a[i]? = some x → x.task.isSettled = false) {y : Entry} (hy : b[i]? = some y) :
    y.task.isSettled = false := by
  cases hx : a[i]? with
  | none => exact h.added i y hy (List.getElem?_eq_none_iff.1 hx)
  | some x =>
    obtain ⟨y', hy', hadv⟩ := h.stays i x hx
    cases hy.symm.trans hy'
    cases hadv with
    | stays => exact ha _ hx
    | starts => rfl
    | ends _ out d heq => exact absurd heq (hl _ _ _)

end Grows

section Terminal

variable {c : Cfg} {s t : St} {l : Lbl}

/-- The final state is kept, and with it the table. -/
theorem terminal_step (hc : c.taskSet = false) (ht : Table s) (h : s.terminal)
    (hst : step c s l = some t) : t.terminal ∧ t.tasks.length = s.tasks.length := by
  obtain ⟨hs, hact, hp⟩ := h
  obtain ⟨htt, hev⟩ := ht.step (fresh_of_sealed hs l) hst
  have hr := sealed_step hs (.inl hp) hst
  have hnone : t.coros = [] := by
    have hlen := ht.active
    refine List.eq_nil_iff_forall_not_mem.2 fun co hco => ?_
    have := List.length_pos_of_mem (hr.coros co hco)
    omega
  have hact' : t.active = 0 := by
    rw [htt.active, hnone]
    rfl
  refine ⟨⟨hr.isSealed, hact', hr.hasPending hp⟩, ?_⟩
  cases hev with
  | advanced m ha _ hg => rw [hg hc, ha.length_eq]
  | added x heq hx _ =>
    have hm : x ∈ t.tasks := by
      rw [heq]
      exact List.mem_append_right _ List.mem_cons_self
    have hset := htt.allSettled (Int.le_of_eq hact') (hr.hasPending hp) x hm
    rcases hx with hx | hx <;> rw [hx] at hset <;> cases hset

/-- It is entered by the end of a task, by `close()` or by `cancel()`. -/
def Lbl.enters : Lbl → Bool
  | .complete _ _ _ | .close _ | .cancel _ _ => true
  | _ => false

theorem terminal_back (hc : c.taskSet = false) (hl : l.enters = false) (hst : step c s l = some t)
    (h : t.terminal) : s.terminal := by
  cases step_move hst with
  | spawns hu he =>
    obtain ⟨f, rfl⟩ := hu.refused he ((SameEnd.spawns hu he).isSealed ▸ h.1)
    rw [hu.eq.1] at h
    exact h
  | complete => cases hl
  | aside _ hturn =>
    have ha := hturn.aside
    unfold St.terminal St.hasPending at h
    rw [ha.isSealed, ha.active, ha.group hc] at h
    exact h
  | seals _ _ _ hl' => rcases hl' with ⟨rfl, -⟩ | ⟨_, rfl, -⟩ <;> cases hl
  | cancelSpawner | again | late | handler | stopped | registers | closeScope => exact h

end Terminal

/-! ## Steps that move no iterator forward -/

/-- No iterator goes on; a suspended one may be woken. -/
structure Keeps (s t : St) : Prop where
  yields : ∀ it, yields it t.log = yields it s.log
  length : t.iters.length = s.iters.length
  iters : ∀ (it : Nat) (y : Iter), t.iters[it]? = some y → ∃ x, s.iters[it]? = some x ∧
    y.pos = x.pos ∧ (y.state = x.state ∨ ∃ w waker, y.state = .parked w waker ∧ waker.queued = true)

namespace Keeps

variable {c : Cfg} {s t u : St}

theorem congr (hiters : t.iters = s.iters) (hlog : ∀ it, TaskGroup.yields it t.log =
    TaskGroup.yields it s.log) : Keeps s t :=
  ⟨hlog, by rw [hiters], fun it y hy => ⟨y, hiters ▸ hy, rfl, .inl rfl⟩⟩

theorem refl (s : St) : Keeps s s := congr rfl fun _ => rfl

theorem quiet (h : Quiet s t) : Keeps s t := congr h.iters h.yields

theorem trans (h : Keeps s t) (h' : Keeps t u) : Keeps s u := by
  refine ⟨fun it => (h'.yields it).trans (h.yields it), h'.length.trans h.length, fun it z hz => ?_⟩
  obtain ⟨y, hy, hpos, hstate⟩ := h'.iters it z hz
  obtain ⟨x, hx, hpos', hstate'⟩ := h.iters it y hy
  refine ⟨x, hx, hpos.trans hpos', ?_⟩
  rcases hstate with heq | hw
  · rw [heq]
    exact hstate'
  · exact .inr hw

/-- A suspended iterator is woken, or cancelled. -/
theorem wake {it pos w : Nat} {waker waker' : Waker}
    (hit : s.iters[it]? = some ⟨pos, .parked w waker⟩) (hq : waker'.queued = true) :
    Keeps s (setIter s it ⟨pos, .parked w waker'⟩) := by
  refine ⟨fun _ => rfl, List.length_set, fun it' y hy => ?_⟩
  have hy : (s.iters.set it ⟨pos, .parked w waker'⟩)[it']? = some y := hy
  by_cases heq : it = it'
  · grind
  · rw [List.getElem?_set_ne heq] at hy
    exact ⟨y, hy, rfl, .inl rfl⟩

theorem removeAt (i : Nat) : Keeps s (removeAt s i) := congr rfl fun _ => rfl

theorem removeWaiter (id : Nat) : Keeps s (removeWaiter s id) := by
  unfold TaskGroup.removeWaiter
  split
  · exact .refl s
  · exact .removeAt _

theorem answered (id : Nat) (a : Answer) : Keeps s (emit s (.answered id a)) :=
  congr rfl fun _ => yields_concat rfl

theorem consume (key : Key) : Keeps s (consume c s key) := by
  rw [consume_eq]
  exact congr rfl fun _ => rfl

theorem consumeAll : Keeps s (consumeAll c s) := by
  rw [consumeAll_eq]
  exact congr rfl fun _ => rfl

theorem visit {d g : Bool} {o : Option Entry} {i : Nat} {w : Waiter} (hv : Visit c d o s i w g t) : Keeps s t := by
  cases hv with
  | race => exact ((answered _ _).trans (.consume _)).trans (.removeAt i)
  | any => exact (answered _ _).trans (.removeAt i)
  | all => exact ((answered _ _).trans .consumeAll).trans (.removeAt i)
  | skip => exact .refl s
  | wake it pos id waker _ _ hit => exact .wake hit (waker.resume_queued none)
  | leave it pos id waker _ _ hit => exact (wake hit (waker.resume_queued none)).trans (.removeAt i)

theorem notifyWaiters (d : Bool) (e : Entry) : Keeps s (notifyWaiters c d e s) :=
  notifyWaiters_rule (P := Keeps s) (fun _ hv h => h.trans (.visit hv)) (.refl s)

theorem tryComplete (d : Bool) : Keeps s (tryComplete c d s) :=
  tryComplete_rule d (.refl s) fun _ _ =>
    (resolveWaiters_rule (P := Keeps s) (fun _ hv h => h.trans (.visit hv)) (.refl s)).trans (.quiet (.finish _))

end Keeps

section Step

variable {c : Cfg} {s t : St} {l : Lbl}

/-- Every other step moves an iterator forward. -/
theorem step_keeps (hst : step c s l = some t) :
    Keeps s t ∨ ∃ u it x, Resumes s l u it x ∧ Goes c u it x.pos t := by
  have hcall : Keeps s (newCall s) := .congr rfl fun _ => rfl
  cases step_move hst with
  | spawns hu he => exact .inl (.quiet (.spawns hu he))
  | complete co out d _ => exact .inl (((Keeps.quiet (.ended c s co out)).trans (.notifyWaiters d _)).trans (.tryComplete d))
  | aside _ ht =>
    cases ht with
    | threw => exact .inl (.congr rfl fun _ => yields_concat rfl)
    | one => exact .inl ((hcall.trans (.answered _ _)).trans (.consume _))
    | all => exact .inl ((hcall.trans (.answered _ _)).trans .consumeAll)
    | rejected => exact .inl (hcall.trans (.answered _ _))
    | waits => exact .inl (.congr rfl fun _ => rfl)
    | drop | cleanIterator => exact .inl (.removeWaiter _)
    | goes hu hg => exact .inr ⟨_, _, _, hu, hg⟩
    | cancelIterator it pos w waker hit => exact .inl (.wake hit waker.cancel_queued)
  | again => exact .inl (.refl s)
  | seals _ d b => exact .inl (Keeps.trans (t := s.seal b) (.congr rfl fun _ => rfl) (.tryComplete d))
  | late => exact .inl (.quiet .late)
  | handler => exact .inl (.quiet (.handler _))
  | cancelSpawner | registers | stopped | closeScope => exact .inl (.congr rfl fun _ => rfl)

end Step

/-! ## The invariants -/

/-- Iterator `it` with position `x.pos` has yielded the table up to there. -/
structure Follows (s : St) (it : Nat) (x : Iter) : Prop where
  bound : x.pos ≤ s.tasks.length
  settled : ∀ e ∈ s.tasks.take x.pos, e.task.isSettled = true
  yields : yields it s.log = s.tasks.take x.pos
  ended : x.state = .ended → s.terminal ∧ x.pos = s.tasks.length

/-- There is nothing to do at position `pos`. -/
def St.idleAt (s : St) (pos : Nat) : Prop :=
  (∀ e, s.tasks[pos]? = some e → e.task.isSettled = false) ∧ ¬ s.terminal

structure Ordered (s : St) : Prop where
  follows : ∀ (it : Nat) (x : Iter), s.iters[it]? = some x → Follows s it x
  future : ∀ it, s.iters.length ≤ it → yields it s.log = []

/-- Whoever sleeps has nothing to do. -/
def Attends (s : St) : Prop :=
  ∀ (it pos w : Nat) (waker : Waker), s.iters[it]? = some ⟨pos, .parked w waker⟩ →
    waker.queued = false → s.idleAt pos

section Invariants

variable {c : Cfg} {s t u : St} {l : Lbl} {it pos : Nat}

theorem Follows.later {x y : Iter} (h : Follows s it x) (hg : Grows l s.tasks t.tasks)
    (hyields : TaskGroup.yields it t.log = TaskGroup.yields it s.log)
    (hterm : s.terminal → t.terminal ∧ t.tasks.length = s.tasks.length) (hpos : y.pos = x.pos)
    (hended : y.state = .ended → x.state = .ended) : Follows t it y := by
  have htake := hg.take h.bound h.settled
  refine ⟨?_, ?_, ?_, fun he => ?_⟩
  · rw [hpos]
    exact Nat.le_trans h.bound hg.length
  · rw [hpos, htake]
    exact h.settled
  · rw [hpos, htake, hyields]
    exact h.yields
  · grind [h.ended]

theorem Ordered.keeps (h : Ordered s) (hk : Keeps s t) (hg : Grows l s.tasks t.tasks)
    (hterm : s.terminal → t.terminal ∧ t.tasks.length = s.tasks.length) : Ordered t := by
  refine ⟨fun it y hy => ?_, fun it hit => ?_⟩
  · obtain ⟨x, hx, hpos, hstate⟩ := hk.iters it y hy
    refine (h.follows it x hx).later hg (hk.yields it) hterm hpos fun he => ?_
    rcases hstate with heq | ⟨w, waker, heq, -⟩
    · exact heq ▸ he
    · cases heq.symm.trans he
  · rw [hk.yields]
    exact h.future it (hk.length ▸ hit)

theorem Attends.keeps (h : Attends s) (hk : Keeps s t) (hidle : ∀ pos, s.idleAt pos → t.idleAt pos) :
    Attends t := by
  intro it pos w waker hit hq
  obtain ⟨x, hx, hpos, hstate⟩ := hk.iters it _ hit
  rcases hstate with heq | ⟨w', waker', heq, hq'⟩
  · obtain ⟨pos', state⟩ := x
    subst hpos heq
    exact hidle pos (h it pos w waker hx hq)
  · cases heq
    cases hq.symm.trans hq'

/-- Iterator `it` becomes `x`; the others and the table stay. -/
theorem Ordered.set (h : Ordered s) (it : Nat) (x : Iter) (hiters : t.iters = s.iters.set it x)
    (htasks : t.tasks = s.tasks) (hterm : s.terminal → t.terminal)
    (hothers : ∀ it', it ≠ it' → yields it' t.log = yields it' s.log) (hlt : it < s.iters.length)
    (hx : Follows t it x) : Ordered t := by
  refine ⟨fun it' y hy => ?_, fun it' hit' => ?_⟩
  · rw [hiters] at hy
    by_cases heq : it = it'
    · subst heq
      rw [List.getElem?_set_self hlt] at hy
      cases hy
      exact hx
    · rw [List.getElem?_set_ne heq] at hy
      have hy' := h.follows it' y hy
      refine ⟨htasks ▸ hy'.bound, htasks ▸ hy'.settled, ?_, fun he => ?_⟩
      · rw [hothers it' heq, htasks]
        exact hy'.yields
      · obtain ⟨h1, h2⟩ := hy'.ended he
        exact ⟨hterm h1, htasks ▸ h2⟩
  · grind [h.future]

theorem Attends.set (h : Attends s) (it : Nat) (x : Iter) (hiters : t.iters = s.iters.set it x)
    (hidle : ∀ pos, s.idleAt pos → t.idleAt pos) (hlt : it < s.iters.length)
    (hx : ∀ w waker, x.state = .parked w waker → waker.queued = false → t.idleAt x.pos) :
    Attends t := by
  intro it' pos w waker hit hq
  rw [hiters] at hit
  by_cases heq : it = it'
  · grind
  · rw [List.getElem?_set_ne heq] at hit
    exact hidle pos (h it' pos w waker hit hq)

/-! ## Moving forward -/

theorem Resumes.ordered {x : Iter} (hu : Resumes s l u it x) (h : Ordered s) : Ordered u := by
  cases hu with
  | iterate =>
    refine ⟨fun it y hy => ?_, fun it hit => ?_⟩
    · have hy : (s.iters ++ [⟨0, .ready⟩] : List Iter)[it]? = some y := hy
      rcases Nat.lt_or_ge it s.iters.length with hlt | hge
      · rw [List.getElem?_append_left hlt] at hy
        exact { h.follows it y hy with }
      · rw [List.getElem?_append_right hge] at hy
        rw [List.mem_singleton.1 (List.mem_of_getElem? hy)]
        exact ⟨Nat.zero_le _, nofun, h.future it hge, nofun⟩
    · have hit : (s.iters ++ [⟨0, .ready⟩] : List Iter).length ≤ it := hit
      rw [List.length_append] at hit
      exact h.future it (Nat.le_of_add_right_le hit)
  | next => exact h
  | run =>
    rw [removeWaiter_eq]
    exact ⟨fun it y hy => { h.follows it y hy with }, h.future⟩

theorem Resumes.attends {x : Iter} (hu : Resumes s l u it x) (h : Attends s) : Attends u := by
  cases hu with
  | iterate =>
    intro it pos w waker hit hq
    have hit : (s.iters ++ [⟨0, .ready⟩] : List Iter)[it]? = some ⟨pos, .parked w waker⟩ := hit
    rcases Nat.lt_or_ge it s.iters.length with hlt | hge
    · rw [List.getElem?_append_left hlt] at hit
      exact h it pos w waker hit hq
    · rw [List.getElem?_append_right hge] at hit
      cases List.mem_singleton.1 (List.mem_of_getElem? hit)
  | next => exact h
  | run =>
    rw [removeWaiter_eq]
    exact h

theorem Resumes.table {x : Iter} (hu : Resumes s l u it x) (h : Table s) : Table u := by
  rw [hu.eq]
  exact h.shrink (.refl _) rfl rfl rfl (.refl _) (Nat.le_refl _)

theorem terminal_iff : (s.isSealed && s.settled) = true ↔ s.terminal := by grind [St.settled, St.terminal]

theorem Goes.ordered {x : Iter} (hc : c.taskSet = false) (h : Ordered s) (hit : s.iters[it]? = some x)
    (hg : Goes c s it x.pos t) : Ordered t := by
  have hlt := (List.getElem?_eq_some_iff.1 hit).1
  have hx := h.follows it x hit
  cases hg with
  | yields e he hs =>
    unfold yieldEntry
    rw [if_neg (by rw [hc]; exact nofun)]
    refine h.set it _ rfl rfl id (fun it' hne => ?_) hlt ⟨?_, ?_, ?_, nofun⟩
    · exact yields_concat (if_neg hne)
    · exact (List.getElem?_eq_some_iff.1 he).1
    · show ∀ y ∈ s.tasks.take (x.pos + 1), _
      rw [List.take_add_one, he]
      intro y hy
      rcases List.mem_append.1 hy with hy | hy
      · exact hx.settled y hy
      · rw [List.mem_singleton.1 hy]
        exact hs
    · show TaskGroup.yields it (s.log ++ [.yielded it e]) = s.tasks.take (x.pos + 1)
      have hself : Ev.yield? it (.yielded it e) = some e := if_pos rfl
      rw [List.take_add_one, he, yields_append, hx.yields]
      show _ ++ List.filterMap (Ev.yield? it) [.yielded it e] = _
      rw [List.filterMap_cons_some hself]
      rfl
  | parks => exact h.set it _ rfl rfl id (fun _ _ => rfl) hlt ⟨hx.bound, hx.settled, hx.yields, nofun⟩
  | ends hnone hend =>
    have hpos : x.pos = s.tasks.length :=
      Nat.le_antisymm hx.bound (List.getElem?_eq_none_iff.1 hnone)
    exact h.set it _ rfl rfl id (fun _ _ => yields_concat rfl) hlt
      ⟨hx.bound, hx.settled, (yields_concat rfl).trans hx.yields, fun _ => ⟨terminal_iff.1 hend, hpos⟩⟩
  | fails =>
    exact h.set it _ rfl rfl id (fun _ _ => yields_concat rfl) hlt
      ⟨hx.bound, hx.settled, (yields_concat rfl).trans hx.yields, nofun⟩

theorem Goes.attends (hc : c.taskSet = false) (ht : Table s) (h : Attends s) (hlt : it < s.iters.length)
    (hg : Goes c s it pos t) : Attends t := by
  cases hg with
  | yields e =>
    unfold yieldEntry
    rw [if_neg (by rw [hc]; exact nofun)]
    exact h.set it _ rfl (fun _ hi => hi) hlt nofun
  | parks hno hend =>
    refine h.set it _ rfl (fun _ hi => hi) hlt fun _ _ _ _ => ⟨hno, fun hterm => ?_⟩
    cases he : s.tasks[pos]? with
    | none => cases (hend he).symm.trans (terminal_iff.2 hterm)
    -- in the final state every entry has settled
    | some e =>
      obtain ⟨-, hact, hp⟩ := hterm
      cases (hno e he).symm.trans (ht.allSettled (Int.le_of_eq hact) hp e (List.mem_of_getElem? he))
  | ends | fails => exact h.set it _ rfl (fun _ hi => hi) hlt nofun

/-! ## Steps -/

theorem Ordered.step (hc : c.taskSet = false) (ht : Table s) (h : Ordered s) (hf : Fresh c s l)
    (hst : step c s l = some t) : Ordered t := by
  rcases step_keeps hst with hk | ⟨u, it, x, hu, hg⟩
  · exact h.keeps hk ((ht.step hf hst).2.grows hc) fun hterm => terminal_step hc ht hterm hst
  · exact hg.ordered hc (hu.ordered h) hu.get

/-- `close()` and `cancel()` on a group that is open, and has settled, come to the waiter of
every iterator that sleeps. -/
def Heard (s : St) : Lbl → Prop
  | .close d | .cancel d _ =>
    s.isSealed = true ∨ 0 < s.active ∨ s.hasPending = true ∨
      ∀ w ∈ s.waiters, leaves false s w = true → w ∈ s.visited d
  | _ => True

instance (s : St) : ∀ l, Decidable (Heard s l) := by
  intro l
  apply @Lbl.casesOn (fun l => Decidable (Heard s l)) l <;> intros <;> dsimp only [Heard] <;> infer_instance

theorem Attends.of_woken (h : ∀ it, s.woken it) : Attends s := by
  intro it pos w waker hit hq
  cases hq.symm.trans (h it pos w waker hit)

/-- The end of a task wakes everybody. -/
theorem complete_attends (h : Registered s) (co : Coro) (out : Outcome) (d : Bool) :
    Attends (onCoroutineComplete c d s co out) := by
  have hreg : Registered (drain c (s.ended co out)) := h.quiet (.ended c s co out)
  rw [onCoroutineComplete_eq]
  refine .of_woken fun it => ?_
  exact (tryComplete_later c d _).woken it (notifyWaiters_wakes hreg _ it)

/-- The group is sealed: it has not settled, or the loop comes to everybody who sleeps. -/
theorem seal_attends (h : Attends s) (hreg : Registered s) (b d : Bool)
    (hheard : 0 < s.active ∨ s.hasPending = true ∨
      ∀ w ∈ s.waiters, leaves false s w = true → w ∈ s.visited d) :
    Attends (tryComplete c d (s.seal b)) := by
  have hregs : Registered (s.seal b) := hreg.congr rfl rfl (Nat.le_refl _)
  rcases tryComplete_cases c d (s.seal b) with ⟨hbusy, heq⟩ | ⟨hact, hp, -⟩
  · rw [heq]
    refine h.keeps (.congr rfl fun _ => rfl) fun pos hidle => ⟨hidle.1, fun hterm => ?_⟩
    obtain ⟨-, ha, hp⟩ := hterm
    rcases hbusy with hbusy | hbusy
    · omega
    · cases hp.symm.trans hbusy
  · have hact' : s.active ≤ 0 := hact
    have hvisit : ∀ w ∈ s.waiters, leaves false s w = true → w ∈ s.visited d := by
      rcases hheard with hh | hh | hh
      · omega
      · cases hh.symm.trans hp
      · exact hh
    -- whoever sleeps afterwards has slept before, and was visited
    refine .of_woken fun it pos w waker hit => ?_
    cases hq : waker.queued with
    | true => rfl
    | false =>
      have hkeep : Keeps s (tryComplete c d (s.seal b)) :=
        Keeps.trans (t := s.seal b) (.congr rfl fun _ => rfl) (.tryComplete d)
      obtain ⟨⟨pos', state⟩, hx, hpos, hstate⟩ := hkeep.iters it _ hit
      rcases hstate with hstate | ⟨w', waker', hstate, hq'⟩
      · dsimp only at hpos hstate
        subst hpos hstate
        have hm := hreg.listed it pos w waker hx hq
        have hsleeps : leaves false s ⟨w, .iterator it⟩ = true := by
          rw [leaves_iterator rfl hx, hq]
          rfl
        have hv : (⟨w, .iterator it⟩ : Waiter) ∈ (s.seal b).visited d := hvisit _ hm hsleeps
        rw [← hq]
        exact (tryComplete_served hregs hact hp hv).notified it rfl pos w waker hit
      · cases hstate
        cases hq.symm.trans hq'

theorem idleAt_step (hc : c.taskSet = false) (hg : Grows l s.tasks t.tasks) (hl : l.enters = false)
    (hst : step c s l = some t) : ∀ pos, s.idleAt pos → t.idleAt pos := by
  intro pos hi
  refine ⟨fun e he => hg.unsettled ?_ hi.1 he, fun ht => hi.2 (terminal_back hc hl hst ht)⟩
  rintro call out d rfl
  cases hl

theorem Attends.step (hc : c.taskSet = false) (ht : Table s) (hreg : Registered s) (h : Attends s)
    (hf : Fresh c s l) (hheard : Heard s l) (hst : step c s l = some t) : Attends t := by
  have hother : l.enters = false → Attends t := by
    intro he
    rcases step_keeps hst with hk | ⟨u, it, x, hu, hg⟩
    · exact h.keeps hk (idleAt_step hc ((ht.step hf hst).2.grows hc) he hst)
    · exact hg.attends hc (hu.table ht) (hu.attends h) (List.getElem?_eq_some_iff.1 hu.get).1
  cases step_move hst with
  | spawns hu => exact hother (by cases hu <;> rfl)
  | complete co out d => exact complete_attends hreg co out d
  | aside hl => exact hother (by cases l <;> first | rfl | cases hl)
  | again => exact h
  | seals _ d b hl hs =>
    refine seal_attends h hreg b d ?_
    rcases hl with ⟨rfl, -⟩ | ⟨_, rfl, -⟩ <;> exact hheard.resolve_left (by rw [hs]; exact nofun)
  | cancelSpawner | late | handler | stopped | registers | closeScope => exact hother rfl

/-- The task whose coroutine ends gets its outcome. -/
theorem complete_outcome (hc : c.taskSet = false) (ht : Table s) {i : Nat} {e : Entry} {out : Outcome}
    {d : Bool} (hst : step c s (.complete e.call out d) = some t) {y : Entry} (hy : t.tasks[i]? = some y)
    (hcall : y.call = e.call) : y.task = out.task := by
  have htt := (ht.step (l := .complete e.call out d) trivial hst).1
  obtain ⟨co, hfind, rfl⟩ := Option.map_eq_some_iff.1 hst
  have hco : co.call = e.call := by simpa using List.find?_some hfind
  have hmem := ended_mem (c := c) ht (List.mem_of_find?_eq_some hfind) out
  have htasks : (onCoroutineComplete c d s co out).tasks = (drain c (s.ended co out)).tasks := by
    rw [onCoroutineComplete_eq, tryComplete_group hc, (told_aside c d s co out).group hc]
  rw [← htasks] at hmem
  have heq := List.inj_on_of_nodup_map (List.nodup_append.1 htt.calls).1 (List.mem_of_getElem? hy) hmem
    (hcall.trans hco.symm)
  rw [heq]

/-- A call of `close()` that is not heard leaves an iterator asleep in the final state. -/
theorem sleeps_of_not_heard (h : Registered s) (hs : s.isSealed = false) (hact : s.active = 0)
    (hp : s.hasPending = false) {d : Bool} {w : Waiter} (hw : w ∈ s.waiters)
    (hsleeps : leaves false s w = true) (hno : w ∉ s.visited d) : ¬ Attends (close c d s) := by
  have hregs : Registered (s.seal s.scopeClosed) := h.congr rfl rfl (Nat.le_refl _)
  have hact' : (s.seal s.scopeClosed).active ≤ 0 := Int.le_of_eq hact
  obtain ⟨-, hiters⟩ := tryComplete_left (c := c) (d := d) hregs hact' hp hw hno
  unfold close
  rw [hs, if_neg Bool.false_ne_true]
  intro hattends
  cases hk : w.kind with
  | iterator it =>
    obtain ⟨pos, waker, hit⟩ := h.parked w hw it hk
    rw [leaves_iterator hk hit] at hsleeps
    have hq : waker.queued = false := by simpa using hsleeps
    have hsame : (tryComplete c d (s.seal s.scopeClosed)).iters[it]? = some ⟨pos, .parked w.id waker⟩ :=
      (hiters it hk).trans hit
    obtain ⟨-, hra, hrs, -, -, hrp⟩ := tryComplete_rest c d (s.seal s.scopeClosed)
    exact (hattends it pos w.id waker hsame hq).2 ⟨hrs, hra.trans hact, hrp hp⟩
  | _ =>
    unfold leaves at hsleeps
    rw [hk] at hsleeps
    cases hsleeps

end Invariants

theorem iteration_inductive {c : Cfg} (hc : c.taskSet = false) :
    ((lts c).restrict fun s l => Fresh c s l ∧ Heard s l).Inductive fun s =>
      Table s ∧ Registered s ∧ Ordered s ∧ Attends s where
  init s hi := by
    rw [hi.2]
    exact ⟨.create, .create, ⟨nofun, fun _ _ => rfl⟩, nofun⟩
  step s l t h hs := by
    obtain ⟨ht, hreg, hord, hatt⟩ := h
    obtain ⟨⟨hf, hheard⟩, hst⟩ := hs
    exact ⟨(ht.step hf hst).1, hreg.step hst, hord.step hc ht hf hst, hatt.step hc ht hreg hf hheard hst⟩

/-- **Counterexample.** Two iterators have yielded the only task and wait for another one.
`close()` wakes the first; the second one sleeps, and the group is in its final state. -/
theorem second_iterator_sleeps :
    ∃ s, (lts ⟨0, 0, false⟩).Reachable s ∧ s.isSealed = true ∧ s.active = 0 ∧ s.hasPending = false ∧
      s.tasks = [⟨.int 0, 0, .done 7⟩] ∧
      s.iters = [⟨1, .parked 3 (Waker.parked.resume none)⟩, ⟨1, .parked 4 .parked⟩] := by
  exact exists_run 0 0 false (by decide) (by decide)
    [.spawn, .iterate, .iterate, .complete 0 (.result 7) false, .runIterator 0, .runIterator 1,
      .next 0, .next 1, .close false] (by decide +kernel)

/-- **Iteration.** In every fresh run of a group in which sleeping iterators are heard:
each iterator has yielded the tasks at the places before its position, in order and once,
each with its key and outcome; a task keeps its place, and once it has ended the outcome
of its coroutine; an iterator has ended only in the final state, with everything yielded;
and one that sleeps without a wake-up stands before a task that has not settled, or
behind the last one, and the state is not the final one. -/
theorem iteration_in_order (c : Cfg) (hc : c.taskSet = false) (s : St)
    (hr : ((lts c).restrict fun s l => Fresh c s l ∧ Heard s l).Reachable s) :
    (∀ (it : Nat) (x : Iter), s.iters[it]? = some x → yields it s.log = s.tasks.take x.pos ∧
      ((yields it s.log).map Entry.call).Nodup ∧ ∀ e ∈ yields it s.log, e.task.isSettled = true) ∧
    (∀ l t, Fresh c s l → step c s l = some t → ∀ (i : Nat) (e : Entry), s.tasks[i]? = some e →
      ∃ y, t.tasks[i]? = some y ∧ y.key = e.key ∧ y.call = e.call ∧
        (e.task.isSettled = true → y = e) ∧ ∀ out d, l = .complete e.call out d → y.task = out.task) ∧
    (∀ (it : Nat) (x : Iter), s.iters[it]? = some x → x.state = .ended →
      s.isSealed = true ∧ s.active = 0 ∧ s.hasPending = false ∧ yields it s.log = s.tasks) ∧
    ∀ (it pos w : Nat) (waker : Waker), s.iters[it]? = some ⟨pos, .parked w waker⟩ →
      waker.queued = false → (∀ e, s.tasks[pos]? = some e → e.task.isSettled = false) ∧
        ¬ (s.isSealed = true ∧ s.active = 0 ∧ s.hasPending = false) := by
  obtain ⟨ht, -, hord, hatt⟩ := (iteration_inductive hc).reachable s hr
  refine ⟨fun it x hx => ?_, fun l t hf hst i e he => ?_, fun it x hx hend => ?_, hatt⟩
  · have h := hord.follows it x hx
    rw [h.yields]
    refine ⟨rfl, ?_, h.settled⟩
    exact ((List.take_sublist _ _).map Entry.call).nodup (List.nodup_append.1 ht.calls).1
  · have hg := (ht.step hf hst).2.grows hc
    obtain ⟨y, hy, hadv⟩ := hg.stays i e he
    refine ⟨y, hy, hadv.key, hadv.call, fun hs => ?_, fun out d hl => ?_⟩
    · exact Option.some.inj (hy.symm.trans (hg.of_settled he hs))
    · subst hl
      exact complete_outcome hc ht hst hy hadv.call
  · have h := hord.follows it x hx
    obtain ⟨⟨h1, h2, h3⟩, hpos⟩ := h.ended hend
    refine ⟨h1, h2, h3, ?_⟩
    rw [h.yields, hpos, List.take_length]

/-- Two tasks end in the other order; two iterators yield them in the order of the calls,
one of them while it is woken by the end of a task, and end after `close()`. -/
theorem iteration_in_order_two :
    ∃ s : St, s.tasks = [⟨.int 0, 0, .done 7⟩, ⟨.int 1, 1, .done 8⟩] ∧
      s.iters = [⟨2, .ended⟩, ⟨2, .ended⟩] ∧ yields 0 s.log = s.tasks ∧ yields 1 s.log = s.tasks := by
  obtain ⟨s, hr, h1, h2⟩ := exists_restricted_run
    (fun s l => Fresh ⟨0, 0, false⟩ s l ∧ Heard s l) 0 0 false (by decide) (by decide)
    [.spawn, .spawn, .iterate, .complete 1 (.result 8) false, .runIterator 0, .iterate,
      .complete 0 (.result 7) false, .runIterator 0, .next 0, .next 0, .close false, .runIterator 0,
      .runIterator 1, .next 1, .next 1]
    (P := fun s => s.tasks = [⟨.int 0, 0, .done 7⟩, ⟨.int 1, 1, .done 8⟩] ∧
      s.iters = [⟨2, .ended⟩, ⟨2, .ended⟩]) (by decide +kernel)
  obtain ⟨-, -, hend, -⟩ := iteration_in_order _ rfl s hr
  exact ⟨s, h1, h2, (hend 0 ⟨2, .ended⟩ (by rw [h2]; rfl) rfl).2.2.2,
    (hend 1 ⟨2, .ended⟩ (by rw [h2]; rfl) rfl).2.2.2⟩

end PhpAsync.L2.TaskGroup
