import PhpAsync.L2Future.Chain

/-!
# Where pending children are

* `Covered`: a pending child of a settled source is before the cursor of an iterator that is not
  finished, in a suspended callable, or in a coroutine of its own; and an iterator that is not
  finished has a coroutine.

`X` are the children in hand in the middle of a step. What is proved here is about the edits that
steps are made of; Settle.lean puts them together.
-/
namespace PhpAsync.L2.Future

open PhpAsync.Core Function

variable {V E : Type}

/-! ## The invariant -/

/-- Where the pending child `i` of the settled future `p` is. -/
inductive Due (s : St V E) (p i : Nat) : Prop
  | queued {k : Nat} (hk : (s.iters k).state ≠ .finished) (hp : p ∈ (s.iters k).todo)
      (hi : i ∈ (s.futs p).children)
  | next {k : Nat} (hk : (s.iters k).state ≠ .finished) (hi : i ∈ (s.iters k).rest)
  | inside {w : Nat} {it : Option Nat} (h : s.workers w = .inside it p i)
  | mapper {w : Nat} (h : s.workers w = .mapper p i)

/-- `X` are the children in hand. -/
structure Covered (X : Nat → Prop) (s : St V E) : Prop where
  live : ∀ k, (s.iters k).state ≠ .finished → ∃ w, (s.workers w).iter = some k
  cover : ∀ p i k, (s.futs i).source = some (p, k) → (s.futs p).outcome ≠ none →
    (s.futs i).outcome = none → X i ∨ Due s p i
  waiting : ∀ p i k, (s.futs i).source = some (p, k) → (s.futs p).outcome = none →
    i ∈ (s.futs p).children

theorem covered_start : Covered (fun _ => False) (start : St V E) where
  live k h := absurd rfl h
  cover p i k h := by cases h
  waiting p i k h := by cases h

variable {X : Nat → Prop} {c : Env V E} {children : Nat → List Nat} {i k p w : Nat} {it : Option Nat} {s t : St V E}
variable {todo : List Nat}

theorem Covered.mono {Y : Nat → Prop} (h : Covered X s) (hXY : ∀ i, X i → (s.futs i).outcome = none → Y i) :
    Covered Y s :=
  { h with
    cover := fun p i k hs hp hi => (h.cover p i k hs hp hi).imp (fun hx => hXY i hx hi) id }

/-! ## Steps that keep what is due -/

/-- The iterator comes to the child `i` of `p`. -/
def Iter.Has (it : Iter) (children : Nat → List Nat) (p i : Nat) : Prop :=
  it.state ≠ .finished ∧ (p ∈ it.todo ∧ i ∈ children p ∨ i ∈ it.rest)

def Worker.Has (x : Worker) (p i : Nat) : Prop := (∃ it, x = .inside it p i) ∨ x = .mapper p i

theorem due_iff : Due s p i ↔ (∃ k, (s.iters k).Has s.children p i) ∨ ∃ w, (s.workers w).Has p i := by
  constructor
  · rintro (⟨hk, hp, hi⟩ | ⟨hk, hi⟩ | h | h)
    · exact .inl ⟨_, hk, .inl ⟨hp, hi⟩⟩
    · exact .inl ⟨_, hk, .inr hi⟩
    · exact .inr ⟨_, .inl ⟨_, h⟩⟩
    · exact .inr ⟨_, .inr h⟩
  · rintro (⟨k, hk, ⟨hp, hi⟩ | hi⟩ | ⟨w, ⟨it, h⟩ | h⟩)
    · exact .queued hk hp hi
    · exact .next hk hi
    · exact .inside h
    · exact .mapper h

theorem Iter.Has.mono {it : Iter} {children' : Nat → List Nat} (h : it.Has children p i)
    (hsub : children p ⊆ children' p) : it.Has children' p i :=
  h.imp_right (Or.imp_left fun h => ⟨h.1, hsub h.2⟩)

/-- Whoever has a child still has it, or it is in hand; and who looks after an iterator
still does. -/
theorem Covered.change {Y : Nat → Prop} (h : Covered X s)
    (hold : ∀ p i k, (t.futs i).source = some (p, k) → (t.futs p).outcome ≠ none → (t.futs i).outcome = none →
      ((s.futs i).source = some (p, k) ∧ (s.futs p).outcome ≠ none ∧ (s.futs i).outcome = none) ∨ Y i ∨ Due t p i)
    (hwait : ∀ p i k, (t.futs i).source = some (p, k) → (t.futs p).outcome = none → i ∈ (t.futs p).children)
    (hsub : ∀ p, s.children p ⊆ t.children p) (hX : ∀ i, X i → Y i)
    (hlive : ∀ k, (t.iters k).state ≠ .finished → (∃ w, (t.workers w).iter = some k) ∨
      ((s.iters k).state ≠ .finished ∧ ∀ w, (s.workers w).iter = some k → (t.workers w).iter = some k))
    (hiter : ∀ k p i, (s.iters k).Has s.children p i → Y i ∨ (t.iters k).Has s.children p i)
    (hwork : ∀ w p i, (s.workers w).Has p i → (s.futs i).outcome = none → Y i ∨ (t.workers w).Has p i) :
    Covered Y t := by
  refine ⟨fun k hk => ?_, fun p i k hs hp hi => ?_, hwait⟩
  · rcases hlive k hk with hw | ⟨hk', hw⟩
    · exact hw
    · exact (h.live k hk').imp hw
  · rcases hold p i k hs hp hi with ⟨hs', hp', hi'⟩ | hd
    · rcases h.cover p i k hs' hp' hi' with hx | hd
      · exact .inl (hX i hx)
      · rw [due_iff]
        rcases due_iff.1 hd with ⟨k, hk⟩ | ⟨w, hw⟩
        · exact (hiter k p i hk).imp id fun h' => .inl ⟨k, h'.mono (hsub p)⟩
        · exact (hwork w p i hw hi').imp id fun h' => .inr ⟨w, h'⟩
    · exact hd

/-- The futures keep their place in the tree and their outcome. -/
theorem Covered.keep {Y : Nat → Prop} (h : Covered X s)
    (htree : ∀ i, (t.futs i).source = (s.futs i).source ∧ (t.futs i).children = (s.futs i).children ∧
      (t.futs i).outcome = (s.futs i).outcome) (hX : ∀ i, X i → Y i)
    (hlive : ∀ k, (t.iters k).state ≠ .finished → (∃ w, (t.workers w).iter = some k) ∨
      ((s.iters k).state ≠ .finished ∧ ∀ w, (s.workers w).iter = some k → (t.workers w).iter = some k))
    (hiter : ∀ k p i, (s.iters k).Has s.children p i → Y i ∨ (t.iters k).Has s.children p i)
    (hwork : ∀ w p i, (s.workers w).Has p i → (s.futs i).outcome = none → Y i ∨ (t.workers w).Has p i) :
    Covered Y t := by
  refine h.change (fun p i k hs hp hi => .inl ?_) (fun p i k hs hp => ?_) (fun p i hi => ?_) hX hlive hiter hwork
  · rw [← (htree i).1, ← (htree p).2.2, ← (htree i).2.2]
    exact ⟨hs, hp, hi⟩
  · rw [(htree p).2.1]
    exact h.waiting p i k ((htree i).1 ▸ hs) ((htree p).2.2 ▸ hp)
  · rw [St.children, (htree p).2.1]
    exact hi

/-- A flag or a counter of a future changes. -/
theorem Covered.setFlag (h : Covered X s) {j : Nat} {f : Fut V E} (hs : f.source = (s.futs j).source)
    (hc : f.children = (s.futs j).children) (ho : f.outcome = (s.futs j).outcome) : Covered X (s.setFut j f) :=
  h.keep (fun i => update_rel (fun f g => g.source = f.source ∧ g.children = f.children ∧ g.outcome = f.outcome)
      (fun _ => ⟨rfl, rfl, rfl⟩) i ⟨hs, hc, ho⟩)
    (fun _ => id) (fun _ hk => .inr ⟨hk, fun _ => id⟩) (fun _ _ _ => .inr) fun _ _ _ hw _ => .inr hw

/-- A coroutine changes its state. What it leaves behind is finished, settled or in hand. -/
theorem Covered.setWorker (h : Covered X s) {x : Worker}
    (hlive : ∀ k, (s.workers w).iter = some k → x.iter = some k ∨ (s.iters k).state = .finished)
    (hin : ∀ p i, (s.workers w).Has p i → (s.futs i).outcome ≠ none ∨ X i) : Covered X (s.setWorker w x) := by
  refine h.keep (fun _ => ⟨rfl, rfl, rfl⟩) (fun _ => id) (fun k hk => .inr ⟨hk, fun v hv => ?_⟩)
    (fun _ _ _ => .inr) fun v p i hv hi => ?_
  · simp only [St.setWorker, update_apply]
    split
    · subst_vars
      exact (hlive k hv).resolve_right hk
    · exact hv
  · simp only [St.setWorker, update_apply]
    split
    · subst_vars
      exact .inl ((hin p i hv).resolve_left fun hne => hne hi)
    · exact .inr hv

/-- A coroutine suspends in the callable of the child in hand. -/
theorem Covered.suspend (h : Covered (fun j => j = i ∨ X j) s) (hsrc : ∃ k, (s.futs i).source = some (p, k))
    (hlive : ∀ k, (s.workers w).iter = some k → it = some k) (hin : ∀ p i, ¬ (s.workers w).Has p i) :
    Covered X (s.setWorker w (.inside it p i)) := by
  have h₁ := h.setWorker (w := w) (x := .inside it p i) (fun k hk => .inl (hlive k hk))
    (fun p' i' hw => absurd hw (hin p' i'))
  refine ⟨h₁.live, fun q j k hs hp hj => ?_, h₁.waiting⟩
  rcases h₁.cover q j k hs hp hj with (rfl | hx) | hd
  · obtain ⟨k', hk'⟩ := hsrc
    have hs' : (s.futs j).source = some (q, k) := hs
    rw [hk'] at hs'
    cases hs'
    exact .inr (.inside (update_self ..))
  · exact .inl hx
  · exact .inr hd

theorem spawn_keeps (hnew : s.workers s.nWorkers = .done) (x : Worker) (v : Nat) :
    (∀ k, (s.workers v).iter = some k → ((s.spawn x).workers v).iter = some k) ∧
      ∀ p i, (s.workers v).Has p i → ((s.spawn x).workers v).Has p i := by
  simp only [St.spawn, update_apply]
  split
  · subst_vars
    simp [hnew, Worker.iter, Worker.Has]
  · exact ⟨fun _ => id, fun _ _ => id⟩

theorem Covered.spawn (h : Covered X s) (hnew : s.workers s.nWorkers = .done) (x : Worker) : Covered X (s.spawn x) :=
  h.keep (fun _ => ⟨rfl, rfl, rfl⟩) (fun _ => id) (fun k hk => .inr ⟨hk, fun v => (spawn_keeps hnew x v).1 k⟩)
    (fun _ _ _ => .inr) fun v p i hv _ => .inr ((spawn_keeps hnew x v).2 p i hv)

/-- An iterator changes; what was due in it is due in what it becomes, or in hand. -/
theorem Covered.setIter {Y : Nat → Prop} (h : Covered X s) {it : Iter}
    (hstate : it.state ≠ .finished → (s.iters k).state ≠ .finished) (hX : ∀ i, X i → Y i)
    (hdue : ∀ p i, (s.iters k).Has s.children p i → Y i ∨ it.Has s.children p i) :
    Covered Y (s.setIter k it) := by
  refine h.keep (fun _ => ⟨rfl, rfl, rfl⟩) hX (fun k' hk' => .inr ⟨?_, fun _ => id⟩) (fun k' p i hk' => ?_)
    fun _ _ _ hw _ => .inr hw
  · simp only [St.setIter, update_apply] at hk'
    split at hk'
    · subst_vars
      exact hstate hk'
    · exact hk'
  · simp only [St.setIter, update_apply]
    split
    · subst_vars
      exact hdue p i hk'
    · exact .inr hk'

/-! ## The cursor -/

theorem nextParent_due {q : Nat} {rest : List Nat} (h : nextParent children todo = some (q, rest)) :
    ∀ p ∈ todo, ∀ i ∈ children p, p ∈ rest ∨ p = q := by
  induction todo with
  | nil => cases h
  | cons x todo ih => grind [nextParent]

theorem nextParent_none (h : nextParent children todo = none) : ∀ p ∈ todo, children p = [] := by
  induction todo with
  | nil => exact fun p hp => by cases hp
  | cons x todo ih => grind [nextParent]

/-- `valid()` loses no child: it passes over parents without children only. -/
theorem valid_due {it it' : Iter} (h : valid children it = some it') (hs : it.state ≠ .finished) :
    it'.state ≠ .finished ∧ ∀ p i, it.Has children p i → it'.Has children p i := by
  unfold valid at h
  split at h
  · rename_i he
    obtain ⟨⟨q, todo⟩, hn, rfl⟩ := Option.map_eq_some_iff.1 h
    refine ⟨hs, ?_⟩
    rintro p i ⟨-, ⟨hp, hi⟩ | hi⟩
    · rcases nextParent_due hn p hp i hi with h1 | rfl
      · exact ⟨hs, .inl ⟨h1, hi⟩⟩
      · exact ⟨hs, .inr hi⟩
    · rw [List.isEmpty_iff.1 he] at hi
      cases hi
  · cases h
    exact ⟨hs, fun _ _ => id⟩

theorem valid_none {it : Iter} (h : valid children it = none) : ∀ p i, ¬ it.Has children p i := by
  unfold valid at h
  split at h
  · rename_i he
    have hnone := nextParent_none (Option.map_eq_none_iff.1 h)
    rintro p i ⟨-, ⟨hp, hi⟩ | hi⟩
    · rw [hnone p hp] at hi
      cases hi
    · rw [List.isEmpty_iff.1 he] at hi
      cases hi
  · cases h

theorem nextParent_children {q : Nat} {rest : List Nat} (h : nextParent children todo = some (q, rest)) :
    children q ≠ [] := by
  induction todo with
  | nil => cases h
  | cons x todo ih => grind [nextParent]

/-- `valid()` ends at a child. -/
theorem valid_next {it it' : Iter} (h : valid children it = some it') (hrest : it.rest ≠ [] → it.parent ≠ none) :
    it'.next ≠ none := by
  unfold valid at h
  split at h
  · obtain ⟨⟨q, todo⟩, hn, rfl⟩ := Option.map_eq_some_iff.1 h
    unfold Iter.next
    cases hc : children q with
    | nil => exact absurd hc (nextParent_children hn)
    | cons i rest => simp
  · rename_i he
    cases h
    unfold Iter.next
    cases hr : it.rest with
    | nil =>
      rw [hr] at he
      exact absurd rfl he
    | cons i rest =>
      cases hp : it.parent with
      | none => exact absurd hp (hrest (by rw [hr]; simp))
      | some p => simp

/-- What the iterator comes to, besides its next child. -/
theorem upcoming_due {it : Iter} (hk : (s.iters k).state ≠ .finished) (hn : upcoming s k = some (p, i, it)) :
    it.state ≠ .finished ∧ ∀ q j, (s.iters k).Has s.children q j → j = i ∨ it.Has s.children q j := by
  obtain ⟨it₀, hv, hnext⟩ := Option.bind_eq_some_iff.1 hn
  obtain ⟨-, hr, heq⟩ := Iter.next_some hnext
  obtain ⟨hst, hdue⟩ := valid_due hv hk
  have hst' : it.state ≠ .finished := by
    rw [heq]
    exact hst
  refine ⟨hst', fun q j hj => ?_⟩
  obtain ⟨-, hj | hj⟩ := hdue q j hj
  · refine .inr ⟨hst', .inl ?_⟩
    rw [heq]
    exact hj
  · rw [hr] at hj
    exact (List.mem_cons.1 hj).imp_right fun h' => ⟨hst', .inr h'⟩

/-- A coroutine leaves an iterator that is finished. -/
theorem Covered.leave (h : Covered X s) (hk : (s.iters k).state = .finished)
    (hiter : ∀ k', (s.workers w).iter = some k' → k' = k)
    (hin : ∀ p i, (s.workers w).Has p i → (s.futs i).outcome ≠ none ∨ X i) :
    Covered X ((release s k).setWorker w .done) := by
  have hfin : ((release s k).iters k).state = .finished := by
    unfold release
    rw [setIter_self]
    split
    · exact hk
    · rfl
  refine Covered.setWorker (h.setIter ?_ (fun _ => id) fun _ _ h' => absurd hk h'.1) (fun k' hk' => .inr ?_) hin
  · unfold release at hfin
    rw [setIter_self] at hfin
    exact fun hne => absurd hfin hne
  · rw [hiter k' hk']
    exact hfin

/-- The iterator is finished with nothing left. -/
theorem Covered.finish (h : Covered X s) (hleft : ∀ p i, ¬ (s.iters k).Has s.children p i)
    (hiter : ∀ k', (s.workers w).iter = some k' → k' = k)
    (hin : ∀ p i, (s.workers w).Has p i → (s.futs i).outcome ≠ none ∨ X i) : Covered X (finish s w k) :=
  (h.setIter (fun hne => absurd rfl hne) (fun _ => id) fun p i h' => absurd h' (hleft p i)).leave
    (by rw [setIter_self]) hiter hin

/-! ## Resolving -/

/-- A future is settled: its children are in hand until it is queued. -/
theorem Covered.settle (h : Covered X s) {f : Fut V E}
    (hs : f.source = (s.futs i).source) (hc : f.children = (s.futs i).children) (ho : f.outcome ≠ none) :
    Covered (fun j => j ∈ (s.futs i).children ∨ X j) (s.setFut i f) := by
  have htree := fun j => update_rel (fun f g => g.source = f.source ∧ g.children = f.children ∧
    (g.outcome = none → f.outcome = none)) (fun _ => ⟨rfl, rfl, id⟩) j ⟨hs, hc, fun h' => absurd h' ho⟩
  refine h.change (fun p j k hsj hp hj => ?_) (fun p j k hsj hp => ?_) (fun p => ?_)
    (fun _ => .inr) (fun _ hk => .inr ⟨hk, fun _ => id⟩) (fun _ _ _ => .inr) fun _ _ _ hw _ => .inr hw
  · have hsj := (htree j).1.symm.trans hsj
    by_cases hp' : (s.futs p).outcome = none
    · have hpi : p = i := Classical.byContradiction fun hne => hp (by rw [setFut_ne _ _ _ _ hne]; exact hp')
      exact .inr (.inl (.inl (hpi ▸ h.waiting p j k hsj hp')))
    · exact .inl ⟨hsj, hp', (htree j).2.2 hj⟩
  · exact (htree p).2.1.symm ▸ h.waiting p j k ((htree j).1.symm.trans hsj) ((htree p).2.2 hp)
  · show _ ⊆ (update s.futs i f p).children
    rw [(htree p).2.1]
    exact List.Subset.refl _

/-- The children of a future in the queue are due. -/
theorem Covered.dueQueued (hC : Chained c s) (h : Covered (fun j => j ∈ (s.futs i).children ∨ X j) s)
    (hst : (s.iters k).state ≠ .finished) (hi : i ∈ (s.iters k).todo) : Covered X s := by
  refine ⟨h.live, fun p j kd hs hp hj => ?_, h.waiting⟩
  rcases h.cover p j kd hs hp hj with (hc | hx) | hd
  · obtain ⟨kd', hs'⟩ := hC.child i j hc
    rw [hs] at hs'
    cases hs'
    exact .inr (.queued hst hi hc)
  · exact .inl hx
  · exact .inr hd

theorem Covered.createIterator (hnew : s.iters s.nIters = ⟨.finished, none, [], [], 0⟩)
    (hw : s.workers s.nWorkers = .done) (h : Covered X s) (i : Nat) : Covered X (createIterator s i) := by
  have hkeeps := fun v => spawn_keeps (s := s) hw (.entry s.nIters) v
  have hother : ∀ k, (s.iters k).state ≠ .finished → (Future.createIterator s i).iters k = s.iters k := fun k hk =>
    update_of_ne (by rintro rfl; rw [hnew] at hk; exact hk rfl) ..
  refine h.keep (fun _ => ⟨rfl, rfl, rfl⟩) (fun _ => id) (fun k hk => ?_) (fun k p j hk => .inr ?_)
    fun v p j hv _ => .inr ((hkeeps v).2 p j hv)
  · by_cases hkk : k = s.nIters
    · exact .inl ⟨s.nWorkers, by simp [Future.createIterator, St.spawn, hkk, Worker.iter]⟩
    · refine .inr ⟨?_, fun v => (hkeeps v).1 k⟩
      simp only [Future.createIterator, St.spawn, update_apply, if_neg hkk] at hk
      exact hk
  · rw [hother k hk.1]
    exact hk

end PhpAsync.L2.Future
