import Mathlib.Data.List.Perm.Subperm
import PhpAsync.L2TaskGroup.Waiters

/-!
# `Async\TaskGroup`: the waiters of a group that has settled

`task_group_try_complete` goes over the vector of waiters when nothing is active or
pending. Its loop moves on after it has removed a waiter, although another one has come
to that position, and it moves on twice behind an iterator or a `race()`. Only
`all(ignoreErrors)` stays.

`visited` lists the waiters the loop comes to, from the kinds and the order of those in
the vector; by `visits_all_iff` these are all of them exactly when everybody but the second is an
`all(ignoreErrors)`, or there is one only. `resolve_loop` is what it does: it serves these, and
nothing happens to the others. Two futures of `all()` are enough for it to miss one
(`second_all_unanswered`).
`completion_answers` holds when it misses nobody but a `race()`; by `unvisited_unserved`
it holds only then.
-/
namespace PhpAsync.L2.TaskGroup

open PhpAsync.Core PhpAsync.L1

variable {i i' : Nat} {w : Waiter} {ws : List Waiter}

section Loops

variable {c : Cfg} {s t : St} {d : Bool}

/-! ## The waiters `task_group_try_complete` comes to -/

/-- The notification takes the waiter out of the vector: nobody has woken the iterator,
and the notification does not come from inside the scheduler. -/
def leaves (d : Bool) (s : St) (w : Waiter) : Bool :=
  !d && match w.kind with
    | .iterator it => s.iters[it]?.any fun x => match x.state with
      | .parked _ waker => !waker.queued
      | _ => false
    | _ => false

/-- The waiters from the loop's next position on, when it has been at `w` and `ws` stood
behind `w`. -/
def behind (lv : Waiter → Bool) (w : Waiter) (ws : List Waiter) : List Waiter :=
  match w.kind with
  | .all | .any => ws.dropLast
  | .allIgnoreErrors => lastFirst ws
  | .iterator _ => if lv w then ws.dropLast.tail else ws.tail
  | .race => ws.tail

/-- The waiters the loop comes to, in order. -/
def visited (lv : Waiter → Bool) : Nat → List Waiter → List Waiter
  | 0, _ => []
  | _ + 1, [] => []
  | n + 1, w :: ws => w :: visited lv n (behind lv w ws)

def Kind.isFuture : Kind → Bool
  | .all | .allIgnoreErrors | .any => true
  | _ => false

theorem lastFirst_drop_one {α : Type} (l : List α) : (lastFirst l).drop 1 = l.dropLast := by
  rcases List.eq_nil_or_concat l with rfl | ⟨l, x, rfl⟩
  · rfl
  · grind [lastFirst_concat]

theorem behind_subset (lv : Waiter → Bool) (w : Waiter) (ws : List Waiter) :
    ∀ x ∈ behind lv w ws, x ∈ ws := by
  intro x hx
  unfold behind at hx
  split at hx
  · exact List.dropLast_subset _ hx
  · exact List.dropLast_subset _ hx
  · exact (lastFirst_perm ws).mem_iff.1 hx
  · split at hx
    · exact List.dropLast_subset _ (List.mem_of_mem_tail hx)
    · exact List.mem_of_mem_tail hx
  · exact List.mem_of_mem_tail hx

theorem visited_subset (lv : Waiter → Bool) (n : Nat) (ws : List Waiter) : ∀ x ∈ visited lv n ws, x ∈ ws := by
  induction n generalizing ws with
  | zero => exact fun x hx => absurd hx List.not_mem_nil
  | succ n ih =>
    cases ws with
    | nil => exact fun x hx => hx
    | cons w ws =>
      intro x hx
      rcases List.mem_cons.1 hx with rfl | hx
      · exact List.mem_cons_self
      · exact List.mem_cons_of_mem _ (behind_subset lv w ws x (ih _ x hx))

/-- Only behind an `all(ignoreErrors)` everybody is still to come. -/
theorem length_behind_lt (lv : Waiter → Bool) (hk : w.kind ≠ .allIgnoreErrors) (hws : ws ≠ []) :
    (behind lv w ws).length < ws.length := by
  have hpos := List.length_pos_iff.2 hws
  unfold behind
  split
  case h_3 hi => exact absurd hi hk
  case h_4 => split <;> simp only [List.length_dropLast, List.length_tail] <;> omega
  all_goals simp only [List.length_dropLast, List.length_tail]; omega

/-- The loop comes to everybody if and only if all but the second one are futures of
`all(ignoreErrors)`, or there is no second one. -/
theorem visited_all_iff (lv : Waiter → Bool) (n : Nat) : ∀ ws : List Waiter, ws.length = n → ws.Nodup →
    ((∀ w ∈ ws, w ∈ visited lv n ws) ↔ n ≤ 1 ∨ ∀ w ∈ ws.eraseIdx 1, w.kind = .allIgnoreErrors) := by
  induction n with
  | zero =>
    rintro ws hn -
    simp [List.length_eq_zero_iff.1 hn]
  | succ n ih =>
    intro ws hn hnd
    obtain ⟨w, ws, rfl⟩ := List.exists_cons_of_length_eq_add_one hn
    obtain ⟨hw, hnd⟩ := List.nodup_cons.1 hnd
    have hn : ws.length = n := Nat.succ.inj hn
    have hvis : (∀ y ∈ w :: ws, y ∈ visited lv (n + 1) (w :: ws)) ↔ ∀ y ∈ ws, y ∈ visited lv n (behind lv w ws) := by
      simp only [visited, List.mem_cons, forall_eq_or_imp, true_or, true_and]
      exact forall₂_congr fun y hy => or_iff_right fun he : y = w => hw (he ▸ hy)
    rw [hvis]
    rcases List.eq_nil_or_concat ws with rfl | ⟨l, x, rfl⟩
    · simp [← hn]
    rw [List.concat_eq_append] at *
    by_cases hk : w.kind = .allIgnoreErrors
    · -- the last one takes its place, and the second one stays behind all others
      have hperm := (lastFirst_perm (l ++ [x])).symm
      rw [lastFirst_concat] at hperm
      have hih := ih (x :: l) (by simpa using hn) (hperm.nodup_iff.1 hnd)
      rw [show behind lv w (l ++ [x]) = x :: l by simp [behind, hk]]
      simp only [hperm.mem_iff, hih]
      cases l with
      | nil => simp_all
      | cons a l => grind
    · have hlt := length_behind_lt lv hk (List.append_ne_nil_of_right_ne_nil l (List.cons_ne_nil x []))
      refine iff_of_false (fun h => ?_) (by simp [hk, ← hn])
      have := (List.subperm_of_subset hnd fun y hy => visited_subset lv n _ y (h y hy)).length_le
      omega

/-- What a round does for the waiter `w` it is at. -/
structure Round (d : Bool) (s t : St) (i' : Nat) (w : Waiter) (ws : List Waiter) : Prop where
  later : Later s t
  next : t.waiters.drop i' = behind (leaves d s) w ws
  others : ∀ x ∈ s.waiters, x ≠ w → x ∈ t.waiters
  iters : ∀ it, w.kind ≠ .iterator it → t.iters[it]? = s.iters[it]?
  answered : w.kind.isFuture = true → w ∉ t.waiters ∧
    ∃ a, .answered w.id a ∈ t.log.drop s.log.length
  notified : ∀ it, w.kind = .iterator it → t.woken it

theorem leaves_iterator {it pos id : Nat} {waker : Waker} (hk : w.kind = .iterator it)
    (hit : s.iters[it]? = some ⟨pos, .parked id waker⟩) : leaves d s w = (!d && !waker.queued) := by
  unfold leaves
  rw [hk]
  dsimp only
  rw [hit]
  rfl

/-- Futures leave, and iterators that `leaves` is true of. -/
theorem Visit.gone {g : Bool} (hv : Visit c d none s i w g t) : g = (w.kind.isFuture || leaves d s w) := by
  cases hv with
  | race _ ho => cases ho
  | any _ _ hk => rw [hk]; rfl
  | all _ _ _ hk => rcases hk with hk | hk <;> rw [hk] <;> rfl
  | skip _ ho hwoken =>
    cases hk : w.kind with
    | race => simp [leaves, hk, Kind.isFuture]
    | iterator it =>
      have hno : ∀ x, s.iters[it]? = some x → ∀ id waker, x.state = .parked id waker → waker.queued = true := by
        rintro ⟨pos, st⟩ hx id waker rfl
        exact hwoken it hk pos id waker hx
      grind [leaves, Kind.isFuture]
    | all | any | allIgnoreErrors => simp [hk, Kind.isIterator] at ho
  | wake it pos id waker hd hk => rw [hk, leaves, hd]; rfl
  | leave it pos id waker hd hk hit hq => rw [leaves_iterator hk hit, hk, hd, hq]; rfl

/-- **A round of the loop of `task_group_try_complete`.** -/
theorem Visit.round {g : Bool} (h : Registered s) (hw : s.waiters[i]? = some w) (hv : Visit c d none s i w g t) :
    Round d s t (w.kind.next i) w (s.waiters.drop (i + 1)) := by
  obtain ⟨hlater, heq, hwoken⟩ := hv.later hw
  have hperm := swapRemove_perm hw
  have hnotin : w ∉ swapRemove s.waiters i := fun hm =>
    (List.nodup_cons.1 ((hperm.map Waiter.id).nodup_iff.1 h.ids)).1 (List.mem_map_of_mem hm)
  refine ⟨hlater, ?_, fun x hx hne => ?_, fun it hne => ?_, fun hf => ?_, hwoken⟩
  · obtain ⟨p, ws, hs, rfl⟩ := split_of_getElem? hw
    have hws : s.waiters.drop (p.length + 1) = ws := by rw [hs, List.drop_length_add_append, List.drop_one, List.tail_cons]
    rw [heq, hv.gone, hws, hs, swapRemove_append]
    cases hk : w.kind with
    | all | any => simpa [Kind.isFuture, Kind.next, behind, hk] using lastFirst_drop_one ws
    | allIgnoreErrors => simp [Kind.isFuture, Kind.next, behind, hk]
    | race =>
      have hl : leaves d s w = false := by simp [leaves, hk]
      simp [Kind.isFuture, Kind.next, behind, hk, hl]
    | iterator it =>
      cases hl : leaves d s w with
      | true => simp [Kind.isFuture, Kind.next, behind, hk, hl, ← lastFirst_drop_one ws, ← List.drop_one]
      | false => simp [Kind.isFuture, Kind.next, behind, hk, hl]
  · rw [heq]
    split
    · exact (List.mem_cons.1 (hperm.mem_iff.1 hx)).resolve_left hne
    · exact hx
  · cases hv with
    | race e _ _ => rw [consume_eq]; rfl
    | all a _ _ _ => rw [consumeAll_eq]; rfl
    | any | skip => rfl
    | wake it' _ _ _ _ hk | leave it' _ _ _ _ hk =>
      refine List.getElem?_set_ne ?_
      rintro rfl
      exact hne hk
  · have hg := hv.gone
    rw [hf, Bool.true_or] at hg
    rw [heq, hg, if_pos rfl]
    refine ⟨hnotin, ?_⟩
    cases hv with
    | race _ ho => cases ho
    | any a => exact ⟨a, by simp [removeAt, emit]⟩
    | all a => exact ⟨a, by rw [consumeAll_eq]; simp [removeAt, emit]⟩
    | skip => cases hg
    | wake => cases hg
    | leave _ _ _ _ _ hk => rw [hk] at hf; cases hf

/-- The loop has served waiter `w` of the vector it found in `s`. -/
structure Served (s r : St) (w : Waiter) : Prop where
  answered : w.kind.isFuture = true → w ∉ r.waiters ∧
    ∃ a, .answered w.id a ∈ r.log.drop s.log.length
  notified : ∀ it, w.kind = .iterator it → r.woken it

theorem Served.later {r : St} (h : Served s t w) (hl : Later t r) : Served s r w := by
  refine ⟨fun hf => ?_, fun it hk => hl.woken it (h.notified it hk)⟩
  obtain ⟨hm, a, ha⟩ := h.answered hf
  obtain ⟨evs, hevs⟩ := hl.log
  refine ⟨fun hmem => hm (hl.waiters w hmem), a, ?_⟩
  rw [← hevs, List.drop_append]
  exact List.mem_append_left _ ha

theorem Served.earlier {r : St} (h : Served t r w) (hl : Later s t) : Served s r w := by
  refine ⟨fun hf => ?_, h.notified⟩
  obtain ⟨hm, a, ha⟩ := h.answered hf
  exact ⟨hm, a, List.drop_subset_drop_left _ hl.log.length_le ha⟩

/-- The waiters behind the position of the loop leave as they would have left before. -/
theorem Round.leaves_eq {x : Waiter} (hr : Round d s t i' w ws) (h : Registered s) (hw : w ∈ s.waiters)
    (hx : x ∈ s.waiters) (hne : x ≠ w) : leaves d t x = leaves d s x := by
  unfold leaves
  cases hk : x.kind with
  | iterator it =>
    dsimp only
    rw [hr.iters it fun hwk => hne (h.eq_of_iterator hx hw hk hwk)]
  | _ => rfl

/-- **The loop of `task_group_try_complete`** serves the waiters it comes to, and does
nothing for the others. -/
theorem resolve_loop (e : Bool) (lv : Waiter → Bool) (n : Nat) (s : St) (i : Nat) (h : Registered s)
    (hlv : ∀ x ∈ s.waiters.drop i, leaves d s x = lv x) :
    Later s (Loop.run (resolveStep c d e) n (s, i)).1 ∧
    (∀ x ∈ visited lv n (s.waiters.drop i), Served s (Loop.run (resolveStep c d e) n (s, i)).1 x) ∧
    ∀ x ∈ s.waiters, x ∉ visited lv n (s.waiters.drop i) →
      x ∈ (Loop.run (resolveStep c d e) n (s, i)).1.waiters ∧
      ∀ it, x.kind = .iterator it →
        (Loop.run (resolveStep c d e) n (s, i)).1.iters[it]? = s.iters[it]? := by
  induction n generalizing s i with
  | zero => exact ⟨.refl s, fun x hx => absurd hx List.not_mem_nil, fun x hx _ => ⟨hx, fun _ _ => rfl⟩⟩
  | succ n ih =>
    cases hst : resolveStep c d e (s, i) with
    | none =>
      have hnil : s.waiters.drop i = [] :=
        List.drop_eq_nil_of_le (List.getElem?_eq_none_iff.1 (Option.map_eq_none_iff.1 hst))
      rw [Loop.run_none hst, hnil]
      exact ⟨.refl s, fun x hx => absurd hx List.not_mem_nil, fun x hx _ => ⟨hx, fun _ _ => rfl⟩⟩
    | some q =>
      obtain ⟨t, i'⟩ := q
      obtain ⟨w, g, hw, hv, hi⟩ := resolveStep_visit hst
      have hround : Round d s t i' w (s.waiters.drop (i + 1)) := by
        rw [show i' = w.kind.next i from hi]
        exact hv.round h hw
      have hlt := (List.getElem?_eq_some_iff.1 hw).1
      have hdrop : s.waiters.drop i = w :: s.waiters.drop (i + 1) := by
        rw [List.drop_eq_getElem_cons hlt, (List.getElem?_eq_some_iff.1 hw).2]
      have hwm : w ∈ s.waiters := List.mem_of_getElem? hw
      have hlvw : leaves d s w = lv w := hlv w (by rw [hdrop]; exact List.mem_cons_self)
      have hbehind : behind (leaves d s) w (s.waiters.drop (i + 1)) =
          behind lv w (s.waiters.drop (i + 1)) := by
        unfold behind
        rw [hlvw]
      have hnext : t.waiters.drop i' = behind lv w (s.waiters.drop (i + 1)) := hround.next.trans hbehind
      -- `w` does not stand behind itself
      have hnotin : w ∉ s.waiters.drop (i + 1) := by
        have hnd := (List.drop_sublist i s.waiters).map Waiter.id |>.nodup h.ids
        rw [hdrop, List.map_cons, List.nodup_cons] at hnd
        exact fun hm => hnd.1 (List.mem_map_of_mem hm)
      have hreg : Registered t := h.visit hw hv
      have hlv' : ∀ x ∈ t.waiters.drop i', leaves d t x = lv x := by grind [behind_subset, hround.leaves_eq]
      obtain ⟨hlater, hserved, hleft⟩ := ih t i' hreg hlv'
      rw [Loop.run_succ_some hst, hdrop, visited, ← hnext]
      refine ⟨hround.later.trans hlater, fun x hx => ?_, fun x hx hno => ?_⟩
      · rcases List.mem_cons.1 hx with rfl | hx
        · exact Served.later ⟨hround.answered, hround.notified⟩ hlater
        · exact (hserved x hx).earlier hround.later
      · grind [hround.others, hround.iters, h.eq_of_iterator]

end Loops

/-! ## Completion -/

/-- The waiters `task_group_try_complete` comes to in state `s`. -/
def St.visited (d : Bool) (s : St) : List Waiter :=
  TaskGroup.visited (leaves d s) s.waiters.length s.waiters

theorem visits_all_iff {s : St} {d : Bool} (h : Registered s) : (∀ w ∈ s.waiters, w ∈ s.visited d) ↔
    s.waiters.length ≤ 1 ∨ ∀ w ∈ s.waiters.eraseIdx 1, w.kind = .allIgnoreErrors :=
  visited_all_iff (leaves d s) _ _ rfl (.of_map Waiter.id h.ids)

/-- `task_group_try_complete` on a group with no active and no pending task. -/
theorem tryComplete_settled {c : Cfg} {s : St} (hactive : s.active ≤ 0) (hpend : s.hasPending = false)
    (d : Bool) : tryComplete c d s = finish (resolveWaiters c d s) := by
  rcases tryComplete_cases c d s with ⟨h, -⟩ | ⟨-, -, heq⟩
  · grind
  · exact heq

theorem finish_later (s : St) : Later s (finish s) :=
  ⟨List.prefix_append _ _, fun _ h => h, fun _ h => h⟩

theorem tryComplete_later (c : Cfg) (d : Bool) (s : St) : Later s (tryComplete c d s) := by
  refine tryComplete_rule d (.refl s) fun _ _ => Later.trans ?_ (finish_later _)
  exact resolveWaiters_rule (P := Later s) (fun hw hv h => h.trans (hv.later hw).1) (.refl s)

section Complete

variable {c : Cfg} {s : St} {d : Bool} (h : Registered s) (hactive : s.active ≤ 0)
  (hpend : s.hasPending = false)
include h hactive hpend

theorem tryComplete_served (hw : w ∈ s.visited d) : Served s (tryComplete c d s) w := by
  obtain ⟨-, hserved, -⟩ := resolve_loop (c := c) (d := d) s.hasErrors (leaves d s) s.waiters.length s 0 h
    fun _ _ => rfl
  rw [tryComplete_settled hactive hpend]
  exact (hserved w hw).later (finish_later _)

/-- The others stay in the vector, and an iterator among them sleeps on. -/
theorem tryComplete_left (hw : w ∈ s.waiters) (hno : w ∉ s.visited d) :
    w ∈ (tryComplete c d s).waiters ∧
    ∀ it, w.kind = .iterator it → (tryComplete c d s).iters[it]? = s.iters[it]? := by
  obtain ⟨-, -, hleft⟩ := resolve_loop (c := c) (d := d) s.hasErrors (leaves d s) s.waiters.length s 0 h
    fun _ _ => rfl
  rw [tryComplete_settled hactive hpend]
  exact hleft w hw hno

end Complete

/-- **Counterexample.** Two futures of `all()` wait when the only task ends: the second
one gets no answer and stays in the vector, and the group is as settled as it will be. -/
theorem second_all_unanswered :
    ∃ s t, (lts ⟨0, 0, false⟩).Reachable s ∧
      step ⟨0, 0, false⟩ s (.complete 0 (.result 7) false) = some t ∧
      s.waiters = [⟨1, .all⟩, ⟨2, .all⟩] ∧ t.active = 0 ∧ t.hasPending = false ∧
      t.waiters = [⟨2, .all⟩] ∧
      deliveries t.log = [.answered 1 (.results [⟨.int 0, 0, .done 7⟩])] := by
  exact exists_run_step 0 0 false (by decide) (by decide)
    [.spawn, .all false, .all false] (.complete 0 (.result 7) false) (by decide +kernel)

/-- A waiter that is missed is not served: its future stays, or its iterator sleeps on. -/
theorem unvisited_unserved {c : Cfg} {s : St} {d : Bool} (h : Registered s) (hactive : s.active ≤ 0)
    (hpend : s.hasPending = false) (hw : w ∈ s.waiters) (hno : w ∉ s.visited d)
    (hneed : w.kind.isFuture = true ∨ ∃ it, w.kind = .iterator it ∧ ¬ s.woken it) :
    ¬ Served s (tryComplete c d s) w := by
  obtain ⟨hmem, hiters⟩ := tryComplete_left (c := c) h hactive hpend hw hno
  intro hs
  rcases hneed with hf | ⟨it, hk, hsleep⟩
  · exact (hs.answered hf).1 hmem
  · refine hsleep fun pos id waker hit => hs.notified it hk pos id waker ?_
    rw [hiters it hk]
    exact hit

/-- **Completion.** When `task_group_try_complete` runs on a group with no active and no
pending task and comes to every waiter but those of `race()`, each future of `all()` and
`any()` is answered and leaves the vector, and every suspended iterator is woken. -/
theorem completion_answers (c : Cfg) (d : Bool) (s : St) (h : Registered s) (hactive : s.active ≤ 0)
    (hpend : s.hasPending = false)
    (hvisit : ∀ w ∈ s.waiters, w.kind = .race ∨ w ∈ s.visited d) :
    (∀ w ∈ s.waiters, w.kind.isFuture = true → w ∉ (tryComplete c d s).waiters ∧
      ∃ a, .answered w.id a ∈ (tryComplete c d s).log.drop s.log.length) ∧
    ∀ (it pos w : Nat) (waker : Waker),
      (tryComplete c d s).iters[it]? = some ⟨pos, .parked w waker⟩ → waker.queued = true := by
  refine ⟨fun w hw hf => ?_, fun it pos w waker hit => ?_⟩
  · rcases hvisit w hw with hk | hv
    · rw [hk] at hf
      cases hf
    · exact (tryComplete_served h hactive hpend hv).answered hf
  · cases hq : waker.queued with
    | true => rfl
    | false =>
      have hm := (h.tryComplete (c := c) d).listed it pos w waker hit hq
      rcases hvisit _ ((tryComplete_later c d s).waiters _ hm) with hk | hv
      · cases hk
      · rw [← hq]
        exact (tryComplete_served h hactive hpend hv).notified it rfl pos w waker hit

/-- A failed task ends a group with futures of `all(ignoreErrors)` and `any()`: the loop
comes to both. -/
theorem completion_answers_both :
    ∃ s : St, s.waiters = [⟨1, .allIgnoreErrors⟩, ⟨2, .any⟩] ∧
      ∀ w ∈ s.waiters, w ∉ (tryComplete ⟨0, 0, false⟩ false s).waiters := by
  obtain ⟨r, hr, h1, h2, h3, h4⟩ := exists_run 0 0 false (by decide) (by decide) [.spawn, .all true, .any]
    (P := fun r =>
      let s := notifyWaiters ⟨0, 0, false⟩ false ⟨.int 0, 0, .error .cancellation⟩
        (drain ⟨0, 0, false⟩ (r.ended ⟨0, .int 0⟩ (.error .cancellation)))
      s.waiters = [⟨1, .allIgnoreErrors⟩, ⟨2, .any⟩] ∧ s.active ≤ 0 ∧ s.hasPending = false ∧
        ∀ w ∈ s.waiters, w.kind = .race ∨ w ∈ s.visited false) (by decide +kernel)
  have hreg := (registered_inductive _).reachable r hr
  have hreg' := (hreg.quiet (.ended ⟨0, 0, false⟩ r ⟨0, .int 0⟩ (.error .cancellation))).notifyWaiters
    (c := ⟨0, 0, false⟩) false ⟨.int 0, 0, .error .cancellation⟩
  refine ⟨_, h1, fun w hw => ?_⟩
  refine ((completion_answers ⟨0, 0, false⟩ false _ hreg' h2 h3 h4).1 w hw ?_).1
  rw [h1] at hw
  revert w
  decide

end PhpAsync.L2.TaskGroup
