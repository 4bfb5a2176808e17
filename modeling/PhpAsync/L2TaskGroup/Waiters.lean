import Mathlib.Data.List.Nodup
import PhpAsync.L2TaskGroup.Steps

/-!
# `Async\TaskGroup`: the vector of waiters

Futures that are not settled and iterators that are suspended stand in one vector.
`Registered` says what the vector is: no waiter is there twice, an iterator in it is
suspended on that waiter, and a suspended iterator that was not woken is in it.

The loop behind the end of a task goes over the vector while waiters leave it by
swapping with the last one. It stays where it has removed a waiter, and so it comes to
every waiter: `notifyWaiters_wakes`.
-/
namespace PhpAsync.L2.TaskGroup

open PhpAsync.Core PhpAsync.L1

structure Registered (s : St) : Prop where
  ids : (s.waiters.map Waiter.id).Nodup
  bound : ∀ w ∈ s.waiters, w.id < s.calls
  parked : ∀ w ∈ s.waiters, ∀ it, w.kind = .iterator it →
    ∃ pos waker, s.iters[it]? = some ⟨pos, .parked w.id waker⟩
  listed : ∀ (it pos w : Nat) (waker : Waker), s.iters[it]? = some ⟨pos, .parked w waker⟩ →
    waker.queued = false → ⟨w, .iterator it⟩ ∈ s.waiters
  number : ∀ (it pos w : Nat) (waker : Waker), s.iters[it]? = some ⟨pos, .parked w waker⟩ →
    w < s.calls
  own : ∀ (it pos w : Nat) (waker : Waker), s.iters[it]? = some ⟨pos, .parked w waker⟩ →
    ∀ x ∈ s.waiters, x.id = w → x.kind = .iterator it

/-- No waiter of iterator `it` is in the vector. -/
def St.absent (s : St) (it : Nat) : Prop := ∀ w ∈ s.waiters, w.kind ≠ .iterator it

theorem consume_eq (c : Cfg) (s : St) (key : Key) :
    consume c s key = { s with tasks := (consume c s key).tasks } := by
  unfold consume
  split <;> rfl

theorem consumeAll_eq (c : Cfg) (s : St) :
    consumeAll c s = { s with tasks := (consumeAll c s).tasks } := by
  unfold consumeAll
  split <;> rfl

namespace Registered

variable {c : Cfg} {s t u : St}

theorem create : Registered create := by
  have hno : ∀ (it : Nat) (x : Iter), TaskGroup.create.iters[it]? ≠ some x := fun it x h => by cases h
  exact ⟨List.nodup_nil, nofun, nofun, fun it _ _ _ h => absurd h (hno it _),
    fun it _ _ _ h => absurd h (hno it _), fun it _ _ _ h => absurd h (hno it _)⟩

theorem congr (h : Registered s) (hw : t.waiters = s.waiters) (hi : t.iters = s.iters)
    (hc : s.calls ≤ t.calls) : Registered t := by
  refine ⟨hw ▸ h.ids, fun w hm => ?_, ?_, ?_, fun it pos w waker hit => ?_, ?_⟩
  · rw [hw] at hm
    exact Nat.lt_of_lt_of_le (h.bound w hm) hc
  · rw [hw, hi]
    exact h.parked
  · rw [hw, hi]
    exact h.listed
  · rw [hi] at hit
    exact Nat.lt_of_lt_of_le (h.number it pos w waker hit) hc
  · rw [hw, hi]
    exact h.own

theorem quiet (h : Registered s) (hq : Quiet s t) : Registered t := h.congr hq.waiters hq.iters hq.calls

theorem emit (h : Registered s) (e : Ev) : Registered (emit s e) := h.congr rfl rfl (Nat.le_refl _)

theorem consume (h : Registered s) (key : Key) : Registered (consume c s key) := by
  rw [consume_eq]
  exact h.congr rfl rfl (Nat.le_refl _)

theorem consumeAll (h : Registered s) : Registered (consumeAll c s) := by
  rw [consumeAll_eq]
  exact h.congr rfl rfl (Nat.le_refl _)

variable {e : Entry} {i it pos : Nat} {w : Waiter} {waker : Waker}

/-- A waiter that nobody waits on any more leaves. -/
theorem removeAt (h : Registered s) (hw : s.waiters[i]? = some w)
    (hdone : ∀ (it pos : Nat) (waker : Waker), w.kind = .iterator it → s.iters[it]? = some ⟨pos, .parked w.id waker⟩ →
      waker.queued = true) : Registered (removeAt s i) := by
  have hperm : s.waiters.Perm (w :: (TaskGroup.removeAt s i).waiters) := swapRemove_perm hw
  have hsub : ∀ x ∈ (TaskGroup.removeAt s i).waiters, x ∈ s.waiters :=
    fun x hx => hperm.mem_iff.2 (List.mem_cons_of_mem w hx)
  refine ⟨?_, fun x hx => h.bound x (hsub x hx), fun x hx => h.parked x (hsub x hx), ?_, h.number,
    fun it pos id waker hit x hx => h.own it pos id waker hit x (hsub x hx)⟩
  · exact (List.nodup_cons.1 ((hperm.map Waiter.id).nodup_iff.1 h.ids)).2
  · grind [hperm.mem_iff, h.listed, removeAt]

/-- The waiter an id stands for. -/
theorem eq_of_id (h : Registered s) {w' : Waiter} (hw : w ∈ s.waiters) (hw' : w' ∈ s.waiters) (hid : w.id = w'.id) :
    w = w' := List.inj_on_of_nodup_map h.ids hw hw' hid

/-- An iterator has one waiter. -/
theorem eq_of_iterator (h : Registered s) {w' : Waiter} (hw : w ∈ s.waiters) (hw' : w' ∈ s.waiters)
    (hk : w.kind = .iterator it) (hk' : w'.kind = .iterator it) : w = w' := by
  obtain ⟨pos, waker, hit⟩ := h.parked w hw it hk
  obtain ⟨pos', waker', hit'⟩ := h.parked w' hw' it hk'
  rw [hit] at hit'
  simp only [Option.some.injEq, Iter.mk.injEq, IterState.parked.injEq] at hit'
  exact h.eq_of_id hw hw' hit'.2.1

theorem removeWaiter (h : Registered s) {id : Nat}
    (hdone : ∀ (it pos : Nat) (waker : Waker), s.iters[it]? = some ⟨pos, .parked id waker⟩ →
      waker.queued = true) :
    Registered (removeWaiter s id) ∧ ∀ w ∈ (removeWaiter s id).waiters, w ∈ s.waiters ∧ w.id ≠ id := by
  unfold TaskGroup.removeWaiter
  split
  · grind
  · rename_i i hi
    obtain ⟨hlt, hp, -⟩ := List.findIdx?_eq_some_iff_getElem.1 hi
    have hid : s.waiters[i].id = id := of_decide_eq_true hp
    have hw : s.waiters[i]? = some s.waiters[i] := List.getElem?_eq_getElem hlt
    have hperm : s.waiters.Perm (s.waiters[i] :: (TaskGroup.removeAt s i).waiters) := swapRemove_perm hw
    refine ⟨h.removeAt hw fun it pos waker _ hit => hdone it pos waker (hid ▸ hit), fun x hx => ?_⟩
    refine ⟨hperm.mem_iff.2 (List.mem_cons_of_mem _ hx), fun hxid => ?_⟩
    have hnd := List.nodup_cons.1 ((hperm.map Waiter.id).nodup_iff.1 h.ids)
    exact hnd.1 (List.mem_map.2 ⟨x, hx, hxid.trans hid.symm⟩)

/-- A future is added under a new number. -/
theorem addWaiter (h : Registered s) {id : Nat} {kind : Kind} (hid : id < s.calls)
    (hnew : ∀ w ∈ s.waiters, w.id ≠ id)
    (hnew' : ∀ (it pos w : Nat) (waker : Waker), s.iters[it]? = some ⟨pos, .parked w waker⟩ → w ≠ id)
    (hkind : kind.isIterator = false) : Registered (addWaiter s id kind) := by
  have hmem : ∀ w ∈ (TaskGroup.addWaiter s id kind).waiters, w ∈ s.waiters ∨ w = { id, kind } := by
    grind [addWaiter, Kind.isIterator]
  refine ⟨?_, fun w hw => ?_, fun w hw it hk => ?_, fun it pos w waker hit hq => ?_, h.number,
    fun it pos w waker hit x hx hxw => ?_⟩
  · grind [h.ids, addWaiter, Kind.isIterator]
  · rcases hmem w hw with hw | rfl
    · exact h.bound w hw
    · exact hid
  · grind [h.parked, addWaiter, Kind.isIterator]
  · exact List.mem_append_left _ (h.listed it pos w waker hit hq)
  · grind [h.own, addWaiter, Kind.isIterator]

/-- A suspended iterator is woken, or cancelled. -/
theorem wake (h : Registered s) {w : Nat} {waker' : Waker} (hit : s.iters[it]? = some ⟨pos, .parked w waker⟩)
    (hq : waker'.queued = true) : Registered (setIter s it ⟨pos, .parked w waker'⟩) := by
  have hself : (s.iters.set it ⟨pos, .parked w waker'⟩)[it]? = some ⟨pos, .parked w waker'⟩ :=
    List.getElem?_set_self (List.getElem?_eq_some_iff.1 hit).1
  -- every iterator is suspended on the waiter it was suspended on
  have hold : ∀ (it' pos' w' : Nat) (waker'' : Waker),
      (s.iters.set it ⟨pos, .parked w waker'⟩)[it']? = some ⟨pos', .parked w' waker''⟩ →
      (waker''.queued = false → it ≠ it') ∧ ∃ waker₀, s.iters[it']? = some ⟨pos', .parked w' waker₀⟩ ∧
        (it ≠ it' → waker₀ = waker'') := by
    intro it' pos' w' waker'' hit'
    by_cases heq : it = it'
    · grind
    · grind
  refine ⟨h.ids, h.bound, fun x hx it' hk => ?_, fun it' pos' w' waker'' hit' hq' => ?_,
    fun it' pos' w' waker'' hit' => ?_, fun it' pos' w' waker'' hit' => ?_⟩
  · grind [h.parked, setIter]
  · grind [h.listed, setIter]
  · obtain ⟨-, waker₀, hit₀, -⟩ := hold it' pos' w' waker'' hit'
    exact h.number it' pos' w' waker₀ hit₀
  · grind [h.own, setIter]

/-- An iterator that is not in the vector is not suspended afterwards. -/
theorem setIdle (h : Registered s) {x : Iter} (ha : s.absent it) (hx : ∀ w waker, x.state ≠ .parked w waker) :
    Registered (setIter s it x) := by
  have hold : ∀ (it' pos w : Nat) (waker : Waker),
      (s.iters.set it x)[it']? = some ⟨pos, .parked w waker⟩ →
      s.iters[it']? = some ⟨pos, .parked w waker⟩ := by
    intro it' pos w waker hit
    by_cases heq : it = it'
    · grind
    · rwa [List.getElem?_set_ne heq] at hit
  refine ⟨h.ids, h.bound, fun w hw it' hk => ?_, fun it' pos w waker hit => h.listed _ _ _ _ (hold _ _ _ _ hit),
    fun it' pos w waker hit => h.number _ _ _ _ (hold _ _ _ _ hit),
    fun it' pos w waker hit => h.own _ _ _ _ (hold _ _ _ _ hit)⟩
  have hne : it ≠ it' := fun heq => ha w hw (heq ▸ hk)
  show ∃ pos waker, (s.iters.set it x)[it']? = _
  rw [List.getElem?_set_ne hne]
  exact h.parked w hw it' hk

/-- A future is answered, and leaves. -/
theorem answered (h : Registered s) (hw : s.waiters[i]? = some w) (hk : w.kind.isIterator = false) (e : Ev)
    (l : List Entry) : Registered (TaskGroup.removeAt { s with log := s.log ++ [e], tasks := l } i) := by
  have h' : Registered { s with log := s.log ++ [e], tasks := l } := h.congr rfl rfl (Nat.le_refl _)
  exact h'.removeAt hw fun it pos waker hit => by rw [hit] at hk; cases hk

theorem visit {d g : Bool} {o : Option Entry} (h : Registered s) (hw : s.waiters[i]? = some w)
    (hv : Visit c d o s i w g t) : Registered t := by
  cases hv with
  | race e _ hk =>
    rw [consume_eq]
    exact h.answered hw (by rw [hk]; rfl) _ _
  | any a _ hk => exact h.answered hw (by rw [hk]; rfl) _ s.tasks
  | all a l _ hk =>
    rw [consumeAll_eq]
    exact h.answered hw (by rcases hk with hk | hk <;> rw [hk] <;> rfl) _ _
  | skip => exact h
  | wake it pos id waker _ _ hit => exact h.wake hit rfl
  | leave it pos id waker _ hk hit =>
    refine (h.wake hit rfl).removeAt hw fun it' pos' waker' hk' hit' => ?_
    cases hk.symm.trans hk'
    rw [show (setIter s it _).iters[it]? = _ from List.getElem?_set_self (List.getElem?_eq_some_iff.1 hit).1] at hit'
    cases hit'
    rfl

theorem notifyWaiters (h : Registered s) (d : Bool) (e : Entry) : Registered (notifyWaiters c d e s) :=
  notifyWaiters_rule (fun hw hv h => h.visit hw hv) h

theorem tryComplete (h : Registered s) (d : Bool) : Registered (tryComplete c d s) :=
  tryComplete_rule d h fun _ _ =>
    (resolveWaiters_rule (P := Registered) (fun hw hv h => h.visit hw hv) h).quiet (.finish _)

theorem parkIterator (h : Registered s) (ha : s.absent it) (hlt : it < s.iters.length) (pos : Nat) :
    Registered (parkIterator s it pos) := by
  have hget : (s.iters.set it ⟨pos, .parked s.calls .parked⟩)[it]? =
      some ⟨pos, .parked s.calls .parked⟩ := List.getElem?_set_self hlt
  have hmem : ∀ w ∈ (TaskGroup.parkIterator s it pos).waiters,
      w ∈ s.waiters ∨ w = ⟨s.calls, .iterator it⟩ := by
    intro w hw
    rcases List.mem_append.1 hw with hw | hw
    · exact .inl hw
    · exact .inr (List.mem_singleton.1 hw)
  have hold : ∀ (it' pos' w : Nat) (waker : Waker),
      (s.iters.set it ⟨pos, .parked s.calls .parked⟩)[it']? = some ⟨pos', .parked w waker⟩ →
      (it' = it ∧ w = s.calls) ∨ s.iters[it']? = some ⟨pos', .parked w waker⟩ := by
    intro it' pos' w waker hit
    by_cases heq : it = it'
    · subst heq
      rw [hget] at hit
      cases hit
      exact .inl ⟨rfl, rfl⟩
    · rw [List.getElem?_set_ne heq] at hit
      exact .inr hit
  refine ⟨?_, fun w hw => ?_, fun w hw it' hk => ?_, fun it' pos' w waker hit hq => ?_,
    fun it' pos' w waker hit => ?_, fun it' pos' w waker hit x hx hxw => ?_⟩
  · show ((s.waiters ++ [⟨s.calls, .iterator it⟩] : List Waiter).map Waiter.id).Nodup
    rw [List.map_append, List.nodup_append]
    refine ⟨h.ids, List.nodup_singleton _, ?_⟩
    rintro a ha b hb rfl
    obtain ⟨w, hw, rfl⟩ := List.mem_map.1 ha
    exact Nat.ne_of_lt (h.bound w hw) (List.mem_singleton.1 hb)
  · show w.id < s.calls + 1
    rcases hmem w hw with hw | rfl
    · exact Nat.lt_succ_of_lt (h.bound w hw)
    · exact Nat.lt_succ_self _
  · show ∃ pos' waker, (s.iters.set it ⟨pos, .parked s.calls .parked⟩)[it']? = _
    rcases hmem w hw with hw | rfl
    · have hne : it ≠ it' := fun heq => ha w hw (heq ▸ hk)
      rw [List.getElem?_set_ne hne]
      exact h.parked w hw it' hk
    · cases hk
      exact ⟨pos, .parked, hget⟩
  · rcases hold it' pos' w waker hit with ⟨rfl, rfl⟩ | hit
    · exact List.mem_append_right _ List.mem_cons_self
    · exact List.mem_append_left _ (h.listed it' pos' w waker hit hq)
  · show w < s.calls + 1
    rcases hold it' pos' w waker hit with ⟨-, rfl⟩ | hit
    · exact Nat.lt_succ_self _
    · exact Nat.lt_succ_of_lt (h.number it' pos' w waker hit)
  · rcases hmem x hx with hx | rfl
    · rcases hold it' pos' w waker hit with ⟨-, rfl⟩ | hit
      · exact absurd hxw (Nat.ne_of_lt (h.bound x hx))
      · exact h.own it' pos' w waker hit x hx hxw
    · rcases hold it' pos' w waker hit with ⟨rfl, -⟩ | hit
      · rfl
      · exact absurd hxw.symm (Nat.ne_of_lt (h.number it' pos' w waker hit))

theorem goes (h : Registered s) (ha : s.absent it) (hlt : it < s.iters.length) (hg : Goes c s it pos t) :
    Registered t := by
  cases hg with
  | yields e =>
    unfold yieldEntry
    split
    · exact ((h.emit _).setIdle (x := ⟨pos, .ready⟩) ha (fun _ _ => nofun)).consume _
    · exact (h.emit _).setIdle ha (fun _ _ => nofun)
  | parks => exact h.parkIterator ha hlt pos
  | ends => exact (h.emit _).setIdle ha (fun _ _ => nofun)
  | fails => exact (h.emit _).setIdle ha (fun _ _ => nofun)

/-- An iterator that is not suspended is not in the vector. -/
theorem absent_of_ready (h : Registered s) (hit : ∀ pos w waker, s.iters[it]? ≠ some ⟨pos, .parked w waker⟩) :
    s.absent it := by
  intro w hw hk
  obtain ⟨pos, waker, hp⟩ := h.parked w hw it hk
  exact hit _ _ _ hp

/-- An iterator that was woken and runs leaves the vector first. -/
theorem leave (h : Registered s) {w : Nat} (hit : s.iters[it]? = some ⟨pos, .parked w waker⟩) (hq : waker.queued = true) :
    Registered (TaskGroup.removeWaiter s w) ∧ (TaskGroup.removeWaiter s w).absent it := by
  have hdone : ∀ (it' pos' : Nat) (waker' : Waker), s.iters[it']? = some ⟨pos', .parked w waker'⟩ →
      waker'.queued = true := by
    intro it' pos' waker' hit'
    cases hq' : waker'.queued with
    | true => rfl
    | false =>
      have hown := h.own it pos w waker hit _ (h.listed it' pos' w waker' hit' hq') rfl
      cases hown
      rw [hit] at hit'
      cases hit'
      cases hq.symm.trans hq'
  obtain ⟨hr, hmem⟩ := h.removeWaiter hdone
  refine ⟨hr, fun x hx hk => ?_⟩
  obtain ⟨hx, hid⟩ := hmem x hx
  obtain ⟨pos', waker', hit'⟩ := h.parked x hx it hk
  rw [hit] at hit'
  simp only [Option.some.injEq, Iter.mk.injEq, IterState.parked.injEq] at hit'
  exact hid hit'.2.1.symm

/-- An iterator that goes on is not in the vector. -/
theorem resumes (h : Registered s) {l : Lbl} {x : Iter} (hu : Resumes s l u it x) : Registered u ∧ u.absent it := by
  cases hu with
  | iterate =>
    have hnew : ∀ (it pos w : Nat) (waker : Waker),
        (s.iters ++ [⟨0, .ready⟩])[it]? = some ⟨pos, .parked w waker⟩ ↔
        s.iters[it]? = some ⟨pos, .parked w waker⟩ := by
      intro it pos w waker
      rw [List.getElem?_append]
      split
      · exact Iff.rfl
      · grind
    have hs : Registered { s with iters := s.iters ++ [⟨0, .ready⟩] } := by
      refine ⟨h.ids, h.bound, fun w hw it hk => ?_, fun it pos w waker hit => ?_,
        fun it pos w waker hit => ?_, fun it pos w waker hit => ?_⟩
      · obtain ⟨pos, waker, hit⟩ := h.parked w hw it hk
        exact ⟨pos, waker, (hnew it pos w.id waker).2 hit⟩
      · exact h.listed it pos w waker ((hnew it pos w waker).1 hit)
      · exact h.number it pos w waker ((hnew it pos w waker).1 hit)
      · exact h.own it pos w waker ((hnew it pos w waker).1 hit)
    exact ⟨hs, by grind [hs.absent_of_ready]⟩
  | next _ pos hit => exact ⟨h, h.absent_of_ready fun pos' w waker hp => by cases hit.symm.trans hp⟩
  | run _ pos w waker hit hq => exact h.leave hit hq

theorem turn (h : Registered s) {l : Lbl} (ht : Turn c s l t) : Registered t := by
  have hn : Registered (newCall s) := h.congr rfl rfl (Nat.le_succ _)
  cases ht with
  | threw => exact hn.emit _
  | one => exact (hn.emit _).consume _
  | all => exact (hn.emit _).consumeAll
  | rejected => exact hn.emit _
  | waits _ kind hk =>
    exact hn.addWaiter (Nat.lt_succ_self _) (fun w hw => Nat.ne_of_lt (h.bound w hw))
      (fun it pos w waker hit => Nat.ne_of_lt (h.number it pos w waker hit)) hk
  | drop w hw hk =>
    refine (h.removeWaiter fun it pos waker hit => ?_).1
    rw [h.own it pos w.id waker hit w hw rfl] at hk
    cases hk
  | goes hu hg =>
    obtain ⟨hr, ha⟩ := h.resumes hu
    exact hr.goes ha (List.getElem?_eq_some_iff.1 hu.get).1 hg
  | cancelIterator it pos w waker hit => exact h.wake hit rfl
  | cleanIterator it pos w waker hit hq => exact (h.leave hit hq).1

theorem step (h : Registered s) {l : Lbl} (hst : step c s l = some t) : Registered t := by
  cases step_move hst with
  | spawns hu he => exact h.quiet (.spawns hu he)
  | complete co out d _ => exact ((h.quiet (.ended c s co out)).notifyWaiters d _).tryComplete d
  | aside _ ht => exact h.turn ht
  | again => exact h
  | seals _ d b => exact Registered.tryComplete (s := s.seal b) (h.congr rfl rfl (Nat.le_refl _)) d
  | late => exact h.quiet .late
  | handler => exact h.quiet (.handler _)
  | stopped => exact h.quiet .stopped
  | registers => exact h.quiet .finally_
  | cancelSpawner | closeScope => exact h.congr rfl rfl (Nat.le_refl _)

end Registered

theorem registered_inductive (c : Cfg) : (lts c).Inductive Registered where
  init s hi := by
    rw [hi.2]
    exact Registered.create
  step _ _ _ h hs := h.step hs

/-! ## The loops -/

/-- What a loop over the waiters keeps: no event is lost, no waiter is added, and who
was woken stays so. -/
structure Later (s t : St) : Prop where
  log : s.log <+: t.log
  waiters : ∀ w ∈ t.waiters, w ∈ s.waiters
  woken : ∀ it, s.woken it → t.woken it

namespace Later

variable {c : Cfg} {s t u : St}

theorem refl (s : St) : Later s s := ⟨List.prefix_refl _, fun _ h => h, fun _ h => h⟩

theorem trans (h : Later s t) (h' : Later t u) : Later s u :=
  ⟨h.log.trans h'.log, fun w hw => h.waiters w (h'.waiters w hw), fun it hw => h'.woken it (h.woken it hw)⟩

end Later

section Loops

variable {c : Cfg} {s t : St} {d : Bool}

theorem removeAt_mem {x : Waiter} (hw : s.waiters[i]? = some w) (hx : x ∈ (removeAt s i).waiters) : x ∈ s.waiters :=
  (swapRemove_perm hw).mem_iff.2 (List.mem_cons_of_mem w hx)

/-- Waking iterator `it` wakes nobody else, and puts nobody to sleep. -/
theorem setIter_woken (pos w : Nat) (hq : waker.queued = true) (hlt : it < s.iters.length) :
    (setIter s it ⟨pos, .parked w waker⟩).woken it ∧
    ∀ it', s.woken it' → (setIter s it ⟨pos, .parked w waker⟩).woken it' := by
  have hself : (setIter s it ⟨pos, .parked w waker⟩).woken it := by grind [setIter, St.woken]
  refine ⟨hself, fun it' hw => ?_⟩
  by_cases heq : it = it'
  · exact heq ▸ hself
  · grind [setIter, St.woken]

/-- A round removes the waiter it is at, or leaves the vector as it is; a waiter that stays
was woken. -/
theorem Visit.later {g : Bool} {o : Option Entry} (hw : s.waiters[i]? = some w) (hv : Visit c d o s i w g t) :
    Later s t ∧ t.waiters = (if g then swapRemove s.waiters i else s.waiters) ∧
      ∀ it, w.kind = .iterator it → t.woken it := by
  have hmem : ∀ x ∈ swapRemove s.waiters i, x ∈ s.waiters := fun x hx => removeAt_mem (s := s) hw hx
  cases hv with
  | race e _ hk =>
    rw [consume_eq]
    exact ⟨⟨List.prefix_append _ _, hmem, fun _ h => h⟩, rfl, by rw [hk]; exact nofun⟩
  | any a _ hk => exact ⟨⟨List.prefix_append _ _, hmem, fun _ h => h⟩, rfl, by rw [hk]; exact nofun⟩
  | all a l _ hk =>
    rw [consumeAll_eq]
    refine ⟨⟨List.prefix_append _ _, hmem, fun _ h => h⟩, rfl, ?_⟩
    rcases hk with hk | hk <;> rw [hk] <;> exact nofun
  | skip _ _ hwoken => exact ⟨.refl s, rfl, hwoken⟩
  | wake it pos id waker _ hk hit =>
    obtain ⟨hself, hothers⟩ := setIter_woken pos id (waker.resume_queued none) (List.getElem?_eq_some_iff.1 hit).1
    refine ⟨⟨List.prefix_refl _, fun _ hx => hx, hothers⟩, rfl, fun it' hk' => ?_⟩
    cases hk.symm.trans hk'
    exact hself
  | leave it pos id waker _ hk hit =>
    obtain ⟨hself, hothers⟩ := setIter_woken pos id (waker.resume_queued none) (List.getElem?_eq_some_iff.1 hit).1
    refine ⟨⟨List.prefix_refl _, hmem, hothers⟩, rfl, fun it' hk' => ?_⟩
    cases hk.symm.trans hk'
    exact hself

/-- The invariant of that loop: whoever stands before its position was woken. -/
structure Passed (s : St) (i : Nat) : Prop where
  registered : Registered s
  woken : ∀ (j it : Nat) (w : Waiter), j < i → s.waiters[j]? = some w → w.kind = .iterator it → s.woken it

theorem Passed.step {q : St × Nat} (h : Passed s i) (hq : notifyStep c d e (s, i) = some q) : Passed q.1 q.2 := by
  obtain ⟨w, g, hw, hv, hi⟩ := notifyStep_visit hq
  obtain ⟨hlater, heq, hwoken⟩ := hv.later hw
  refine ⟨h.registered.visit hw hv, fun j it x hj hx hk => ?_⟩
  cases g with
  | true => grind [swapRemove_getElem?, hlater.woken, h.woken]
  | false =>
    rw [heq] at hx
    rcases Nat.lt_succ_iff_lt_or_eq.1 (hi ▸ hj) with hj | rfl
    · exact hlater.woken it (h.woken j it x hj hx hk)
    · cases hw.symm.trans hx
      exact hwoken it hk

/-- The loop ends at the end of the vector. -/
theorem notify_stops (s : St) (e : Entry) :
    notifyStep c d e (Loop.run (notifyStep c d e) s.waiters.length (s, 0)) = none := by
  refine Loop.run_stops (P := fun _ => True) (fun _ _ _ h => h)
    (fun p => p.1.waiters.length - p.2) (fun p q _ hq => ?_) _ (s, 0) trivial (Nat.le_refl _)
  obtain ⟨w, g, hw, hv, hi⟩ := notifyStep_visit hq
  obtain ⟨-, heq, -⟩ := hv.later hw
  have hlt := (List.getElem?_eq_some_iff.1 hw).1
  cases g with
  | true => grind [swapRemove_length]
  | false =>
    rw [hi, heq, if_neg Bool.false_ne_true, if_neg Bool.false_ne_true]
    omega

theorem notifyWaiters_later (e : Entry) (s : St) : Later s (notifyWaiters c d e s) :=
  notifyWaiters_rule (P := Later s) (fun hw hv h => h.trans (hv.later hw).1) (.refl s)

/-- **The end of a task wakes every suspended iterator.** -/
theorem notifyWaiters_wakes (h : Registered s) (e : Entry) (it : Nat) :
    (notifyWaiters c d e s).woken it := by
  have hpassed : Passed (Loop.run (notifyStep c d e) s.waiters.length (s, 0)).1
      (Loop.run (notifyStep c d e) s.waiters.length (s, 0)).2 :=
    Loop.run_induct (P := fun p => Passed p.1 p.2) (fun p q hq hp => hp.step hq) _ (s, 0)
      ⟨h, fun _ _ _ hj => by cases hj⟩
  have hstop := Option.map_eq_none_iff.1 (notify_stops (c := c) (d := d) s e)
  intro pos w waker hit
  cases hq : waker.queued with
  | true => rfl
  | false =>
    have hm := hpassed.registered.listed it pos w waker hit hq
    obtain ⟨j, hj⟩ := List.mem_iff_getElem?.1 hm
    have hlt : j < (Loop.run (notifyStep c d e) s.waiters.length (s, 0)).2 := by
      have h1 := (List.getElem?_eq_some_iff.1 hj).1
      have h2 := List.getElem?_eq_none_iff.1 hstop
      omega
    exact absurd (hpassed.woken j it _ hlt hj rfl pos w waker hit) (by rw [hq]; exact nofun)

end Loops

end PhpAsync.L2.TaskGroup
