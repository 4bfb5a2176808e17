import PhpAsync.L2Future.Model
import Mathlib.Data.List.Nodup

/-!
# What a chain computes

`Denotes` is the recursive definition of a chain: a future that was settled from outside
has that outcome, and a derived future has the outcome that `compose` makes of the
outcome of its source. It knows the tree of derivations and nothing about iterators,
coroutines or the moment at which a derivation was attached.

* `Chained.denotes`: every settled future has the outcome it denotes.

A child is visited through its one source, so it is enough that no parent is in two
places of the queues (`Chained.queue`, `Chained.apart`): a callable whose turn is still
to come has not been called (`dueRest`, `dueTodo`, `duePending`, `mapper`).
-/
namespace PhpAsync.L2.Future

open PhpAsync.Core Function

variable {V E : Type}

/-! ## The recursive definition -/

/-- `map()` applies its callable to a success, `catch()` to an error; `finally()` calls it
in both cases and passes the outcome on, unless it throws. -/
def compose (c : Env V E) (k : Kind) (f : Outcome V E → Outcome V E) (parent : Outcome V E) :
    Outcome V E :=
  match k, parent with
  | .success, .ok v => f (.ok v)
  | .success, .error e => .error e
  | .catch_, .ok v => .ok v
  | .catch_, .error e => f (.error e)
  | .finally_, .ok v =>
    match f (.ok v) with
    | .ok _ => .ok v
    | .error x => .error x
  | .finally_, .error e =>
    match f (.error e) with
    | .ok _ => .error e
    | .error x => .error (c.setPrevious x e)

/-- The outcome of a future by its derivation; `given` are the outcomes from outside. -/
inductive Denotes (c : Env V E) (source : Nat → Option (Nat × Kind))
    (given : Nat → Option (Outcome V E)) : Nat → Outcome V E → Prop
  | given {i : Nat} {o : Outcome V E} (h : given i = some o) : Denotes c source given i o
  | derived {i p : Nat} {k : Kind} {o : Outcome V E} (hg : given i = none)
      (hs : source i = some (p, k)) (hp : Denotes c source given p o) :
      Denotes c source given i (compose c k (c.callable i) o)

theorem Denotes.unique {c : Env V E} {source : Nat → Option (Nat × Kind)}
    {given : Nat → Option (Outcome V E)} {i : Nat} {o o' : Outcome V E}
    (h : Denotes c source given i o) (h' : Denotes c source given i o') : o = o' := by
  induction h generalizing o' with
  | given hg =>
    cases h' with
    | given hg' => exact Option.some.inj (hg.symm.trans hg')
    | derived hn _ _ => rw [hg] at hn; cases hn
  | derived hn hs _ ih =>
    cases h' with
    | given hg' => rw [hn] at hg'; cases hg'
    | derived _ hs' hp' =>
      rw [hs] at hs'
      cases hs'
      rw [ih hp']

/-- **One mapper.** What `process_future_mapper` settles a child with. -/
theorem mapped_compose (c : Env V E) (k : Kind) (f : Outcome V E → Outcome V E) (parent : Outcome V E) :
    mapped c k parent (if shouldCall k parent then some (f parent) else none) = compose c k f parent := by
  cases k <;> cases parent with
  | ok v => cases h : f (.ok v) <;> simp [mapped, exception, fallback, retval, shouldCall, compose, h]
  | error e =>
    cases h : f (.error e) <;> simp [mapped, exception, fallback, retval, shouldCall, compose, h]

/-! ## The invariant -/

/-- The parents an iterator still has to do with. -/
def Iter.parents (it : Iter) : List Nat := it.parent.toList ++ it.todo

def Worker.iter : Worker → Option Nat
  | .entry k => some k
  | .looping k => some k
  | .inside it _ _ => it
  | _ => none

structure Chained (c : Env V E) (s : St V E) : Prop where
  newFut : ∀ i, s.nFuts ≤ i → s.futs i = Fut.create none
  newIter : ∀ k, s.nIters ≤ k → s.iters k = ⟨.finished, none, [], [], 0⟩
  newWorker : ∀ w, s.nWorkers ≤ w → s.workers w = .done
  known : ∀ w k, (s.workers w).iter = some k → k < s.nIters
  older : ∀ i p k, (s.futs i).source = some (p, k) → p < i
  child : ∀ p i, i ∈ (s.futs p).children → ∃ k, (s.futs i).source = some (p, k)
  nodup : ∀ p, (s.futs p).children.Nodup
  settled : ∀ k, ∀ p ∈ (s.iters k).parents, (s.futs p).outcome ≠ none
  queue : ∀ k, (s.iters k).parents.Nodup
  apart : ∀ k k' p, p ∈ (s.iters k).parents → p ∈ (s.iters k').parents → k = k'
  rest : ∀ k, ∀ i ∈ (s.iters k).rest, ∃ p, (s.iters k).parent = some p ∧ i ∈ (s.futs p).children
  restNodup : ∀ k, (s.iters k).rest.Nodup
  dueRest : ∀ k, ∀ i ∈ (s.iters k).rest, (s.futs i).calls = 0
  dueTodo : ∀ k, ∀ p ∈ (s.iters k).todo, ∀ i ∈ (s.futs p).children, (s.futs i).calls = 0
  duePending : ∀ p, (s.futs p).outcome = none → ∀ i ∈ (s.futs p).children, (s.futs i).calls = 0
  mapper : ∀ w p i, s.workers w = .mapper p i → (s.futs p).outcome ≠ none ∧
    (s.futs i).calls = 0 ∧ i ∉ (s.futs p).children ∧ ∃ k, (s.futs i).source = some (p, k)
  mapperOne : ∀ w w' p p' i, s.workers w = .mapper p i → s.workers w' = .mapper p' i → w = w'
  inside : ∀ w it p i, s.workers w = .inside it p i → ∃ k parent,
    (s.futs i).source = some (p, k) ∧ (s.futs p).outcome = some parent ∧ shouldCall k parent = true
  once : ∀ i, (s.futs i).calls ≤ 1
  composed : ∀ i o, (s.futs i).outcome = some o → (s.futs i).external = false →
    ∃ p k parent, (s.futs i).source = some (p, k) ∧ (s.futs p).outcome = some parent ∧
      o = compose c k (c.callable i) parent

theorem chained_start (c : Env V E) : Chained c start where
  newFut _ _ := rfl
  newIter _ _ := rfl
  newWorker _ _ := rfl
  known w k h := by cases h
  older i p k h := by cases h
  child p i h := by cases h
  nodup p := List.nodup_nil
  settled k p h := by cases h
  queue k := List.nodup_nil
  apart k k' p h := by cases h
  rest k i h := by cases h
  restNodup k := List.nodup_nil
  dueRest k i h := by cases h
  dueTodo k p h := by cases h
  duePending p _ i h := by cases h
  mapper w p i h := by cases h
  mapperOne w w' p p' i h := by cases h
  inside w it p i h := by cases h
  once i := Nat.zero_le 1
  composed i o h := by cases h

/-! ## The futures change -/

/-- The turn of `i` has come: it is due nowhere else. -/
structure Idle (s : St V E) (i : Nat) : Prop where
  rest : ∀ k, i ∉ (s.iters k).rest
  todo : ∀ k, ∀ p ∈ (s.iters k).todo, i ∉ (s.futs p).children
  pending : ∀ p, (s.futs p).outcome = none → i ∉ (s.futs p).children
  mapper : ∀ w p, s.workers w ≠ .mapper p i
  calls : (s.futs i).calls = 0

variable {c : Env V E} {s t : St V E} {i j k p w : Nat} {it : Option Nat}

variable {n : Nat}

/-- Futures are made and changed. Derivations stay, a new child has a pending source,
outcomes stay once they are there, and a callable is called when its turn has come. -/
theorem Chained.refut (h : Chained c s) {futs : Nat → Fut V E}
    (hnew : ∀ i, n ≤ i → futs i = Fut.create none)
    (hsrc : ∀ j x, (s.futs j).source = some x → (futs j).source = some x)
    (hold : ∀ j p k, (futs j).source = some (p, k) → p < j)
    (hchild : ∀ p j, j ∈ (futs p).children → j ∈ (s.futs p).children ∨
      ((s.futs p).outcome = none ∧ (futs j).calls = 0 ∧ ∃ k, (futs j).source = some (p, k)))
    (hkeep : ∀ p, (s.futs p).children ⊆ (futs p).children) (hnd : ∀ p, (futs p).children.Nodup)
    (hout : ∀ j, (s.futs j).outcome ≠ none → (futs j).outcome = (s.futs j).outcome)
    (hcalls : ∀ j, (futs j).calls = (s.futs j).calls ∨ (Idle s j ∧ (futs j).calls = 1))
    (hcomp : ∀ j o, (futs j).outcome = some o → (futs j).external = false →
      ((s.futs j).outcome = some o ∧ (s.futs j).external = false) ∨
      ∃ p k parent, (s.futs j).source = some (p, k) ∧ (s.futs p).outcome = some parent ∧
        o = compose c k (c.callable j) parent) : Chained c { s with futs := futs, nFuts := n } := by
  have hsettled : ∀ p o, (s.futs p).outcome = some o → (futs p).outcome = some o := fun p o hp => by
    rw [hout p (by simp [hp]), hp]
  -- a callable that was due and is called now was idle
  have hdue : ∀ j, (s.futs j).calls = 0 → ¬ Idle s j → (futs j).calls = 0 := fun j h0 hn =>
    (hcalls j).elim (·.trans h0) fun h' => absurd h'.1 hn
  have hchild' : ∀ p j, j ∈ (futs p).children → (j ∈ (s.futs p).children → (futs j).calls = 0) →
      (futs j).calls = 0 := fun p j hj h' => (hchild p j hj).elim h' (·.2.1)
  exact
    { h with
      newFut := hnew
      older := hold
      child := fun p i hi => by grind [h.child]
      nodup := hnd
      settled := fun k p hp => by grind [h.settled]
      rest := fun k i hi => by grind [h.rest]
      dueRest := fun k i hi => hdue i (h.dueRest k i hi) fun hid => hid.rest k hi
      dueTodo := fun k p hp i hi => hchild' p i hi fun hi =>
        hdue i (h.dueTodo k p hp i hi) fun hid => hid.todo k p hp hi
      duePending := fun p hp i hi => hchild' p i hi fun hi => by grind [h.duePending, Idle.pending]
      mapper := fun w p i hw => by grind [h.mapper, Idle.mapper]
      inside := fun w it p i hw => by grind [h.inside]
      once := fun i => (hcalls i).elim (fun hc => hc ▸ h.once i) fun h' => Nat.le_of_eq h'.2
      composed := fun i o ho he => by grind [h.composed] }

/-- One future changes: what relates its old and new value relates all. -/
theorem update_rel {futs : Nat → Fut V E} {f : Fut V E} (R : Fut V E → Fut V E → Prop)
    (hrefl : ∀ g, R g g) (i : Nat) (hj : R (futs j) f) : R (futs i) (update futs j f i) := by
  rw [update_apply]
  split
  · subst_vars
    exact hj
  · exact hrefl _

/-- A future changes and keeps its place in the tree. -/
theorem Chained.setFut (h : Chained c s) (hj : j < s.nFuts) {f : Fut V E}
    (htree : f.source = (s.futs j).source ∧ f.children = (s.futs j).children)
    (hout : (s.futs j).outcome ≠ none → f.outcome = (s.futs j).outcome)
    (hcalls : f.calls = (s.futs j).calls ∨ (Idle s j ∧ f.calls = 1))
    (hcomp : ∀ o, f.outcome = some o → f.external = false →
      ((s.futs j).outcome = some o ∧ (s.futs j).external = false) ∨
      ∃ p k parent, (s.futs j).source = some (p, k) ∧ (s.futs p).outcome = some parent ∧
        o = compose c k (c.callable j) parent) : Chained c (s.setFut j f) := by
  have hsame := fun i => update_rel (fun f g => g.source = f.source ∧ g.children = f.children)
    (fun _ => ⟨rfl, rfl⟩) i htree
  refine h.refut (fun i hi => ?_) (fun i x hx => (hsame i).1.trans hx)
    (fun i p k hs => h.older i p k ((hsame i).1 ▸ hs)) (fun p i hi => .inl ((hsame p).2 ▸ hi))
    (fun p => (hsame p).2 ▸ List.Subset.refl _) (fun p => (hsame p).2 ▸ h.nodup p) ?_ ?_ ?_
  · rw [update_of_ne (by omega)]
    exact h.newFut i hi
  all_goals grind [update_apply]

/-- A flag of a future changes. -/
theorem Chained.setFlag (h : Chained c s) (hj : j < s.nFuts) (awaited handled closed : Bool) :
    Chained c (s.setFut j { s.futs j with awaited := awaited, handled := handled, closed := closed }) :=
  h.setFut hj ⟨rfl, rfl⟩ (fun _ => rfl) (.inl rfl) fun _ ho he => .inl ⟨ho, he⟩

/-- The callable of a child whose turn has come is called. -/
theorem Chained.called (h : Chained c s) (hi : Idle s i) (hlt : i < s.nFuts) :
    Chained c (s.setFut i { s.futs i with calls := (s.futs i).calls + 1 }) :=
  h.setFut hlt ⟨rfl, rfl⟩ (fun _ => rfl) (.inr ⟨hi, by rw [hi.calls]⟩) fun _ ho he => .inl ⟨ho, he⟩

/-- A pending future is settled: from outside, or with what its source gives. -/
theorem Chained.settle (h : Chained c s) (hlt : i < s.nFuts) (hi : (s.futs i).outcome = none)
    {o : Outcome V E} {handled external : Bool}
    (ho : external = false → ∃ p k parent, (s.futs i).source = some (p, k) ∧
      (s.futs p).outcome = some parent ∧ o = compose c k (c.callable i) parent) : Chained c (s.setFut i
      { s.futs i with outcome := some o, handled := handled, external := external }) :=
  h.setFut hlt ⟨rfl, rfl⟩ (fun hne => absurd hi hne) (.inl rfl) fun o' ho' he => .inr <| by
    obtain rfl := Option.some.inj ho'
    exact ho he

/-! ## Coroutines come and go -/

/-- A coroutine is spawned or changes its state. -/
theorem Chained.putWorker (h : Chained c s) {x : Worker} (hw : w < n) (hn : s.nWorkers ≤ n)
    (hk : ∀ k, x.iter = some k → k < s.nIters)
    (hm : ∀ p i, x = .mapper p i → ((s.futs p).outcome ≠ none ∧ (s.futs i).calls = 0 ∧
      i ∉ (s.futs p).children ∧ ∃ k, (s.futs i).source = some (p, k)) ∧ ∀ w p', s.workers w ≠ .mapper p' i)
    (hx : ∀ it p i, x = .inside it p i → ∃ k parent, (s.futs i).source = some (p, k) ∧
      (s.futs p).outcome = some parent ∧ shouldCall k parent = true) :
    Chained c { s with workers := update s.workers w x, nWorkers := n } := by
  have hcase : ∀ v, v = w ∧ update s.workers w x v = x ∨
      v ≠ w ∧ update s.workers w x v = s.workers v := fun v => by
    rw [update_apply]
    split <;> simp_all
  exact
    { h with
      newWorker := fun v hv => by grind [h.newWorker]
      known := fun v k hv => by grind [h.known]
      mapper := fun v p i hv => by grind [h.mapper]
      mapperOne := fun v v' p p' i hv hv' => by grind [h.mapperOne]
      inside := fun v it p i hv => by grind [h.inside] }

/-- A coroutine changes its state; it does not become one spawned for a mapper. -/
theorem Chained.setWorker (h : Chained c s) {x : Worker} (hw : w < s.nWorkers)
    (hm : ∀ p i, x ≠ .mapper p i) (hk : ∀ k, x.iter = some k → k < s.nIters)
    (hx : ∀ it p i, x = .inside it p i → ∃ k parent, (s.futs i).source = some (p, k) ∧
      (s.futs p).outcome = some parent ∧ shouldCall k parent = true) : Chained c (s.setWorker w x) :=
  h.putWorker hw (Nat.le_refl _) hk (fun p i he => absurd he (hm p i)) hx

/-- A coroutine ends. -/
theorem Chained.setDone (h : Chained c s) (hw : w < s.nWorkers) : Chained c (s.setWorker w .done) :=
  h.setWorker hw (by simp) (by simp [Worker.iter]) (by simp)

theorem Chained.spawn (h : Chained c s) (hk : k < s.nIters) : Chained c (s.spawn (.entry k)) :=
  h.putWorker (Nat.lt_succ_self _) (Nat.le_succ _) (fun k' hk' => Option.some.inj hk' ▸ hk)
    (by simp) (by simp)

variable {it : Iter}

/-! ## Iterators -/

/-- An iterator is made or changed; a parent that is new to it is in no iterator. -/
theorem Chained.putIter (h : Chained c s) (hk : k < n) (hn : s.nIters ≤ n)
    (hset : ∀ p ∈ it.parents, (s.futs p).outcome ≠ none)
    (hpar : ∀ p ∈ it.parents, p ∈ (s.iters k).parents ∨ ∀ k', p ∉ (s.iters k').parents) (hq : it.parents.Nodup)
    (htodo : ∀ p ∈ it.todo, ∀ i ∈ (s.futs p).children, (s.futs i).calls = 0)
    (hrest : ∀ i ∈ it.rest, (s.futs i).calls = 0 ∧ ∃ p, it.parent = some p ∧ i ∈ (s.futs p).children)
    (hnd : it.rest.Nodup) : Chained c { s with iters := update s.iters k it, nIters := n } := by
  -- every field about one iterator is about the new value or an old one
  have hcase : ∀ (P : Iter → Prop), P it → (∀ k', P (s.iters k')) → ∀ k', P (update s.iters k it k') := by
    intro P hP hold k'
    rw [update_apply]
    split
    · exact hP
    · exact hold k'
  have hapart : ∀ k₁ k₂ p, p ∈ (update s.iters k it k₁).parents →
      p ∈ (update s.iters k it k₂).parents → k₁ ≠ k → k₁ = k₂ := by
    intro k₁ k₂ p h₁ h₂ hne
    rw [update_of_ne hne] at h₁
    by_cases hk₂ : k₂ = k
    · grind [h.apart]
    · rw [update_of_ne hk₂] at h₂
      exact h.apart k₁ k₂ p h₁ h₂
  exact
    { h with
      newIter := fun k' hk' => by grind [h.newIter]
      known := fun w k' hw => Nat.lt_of_lt_of_le (h.known w k' hw) hn
      settled := hcase (fun it => ∀ p ∈ it.parents, (s.futs p).outcome ≠ none) hset h.settled
      queue := hcase (fun it => it.parents.Nodup) hq h.queue
      apart := fun k₁ k₂ p h₁ h₂ => by grind
      rest := hcase (fun it => ∀ i ∈ it.rest, ∃ p, it.parent = some p ∧ i ∈ (s.futs p).children)
        (fun i hi => (hrest i hi).2) h.rest
      restNodup := hcase (fun it => it.rest.Nodup) hnd h.restNodup
      dueRest := hcase (fun it => ∀ i ∈ it.rest, (s.futs i).calls = 0)
        (fun i hi => (hrest i hi).1) h.dueRest
      dueTodo := hcase (fun it => ∀ p ∈ it.todo, ∀ i ∈ (s.futs p).children, (s.futs i).calls = 0)
        htodo h.dueTodo }

/-- The cursor of an iterator moves. -/
theorem Chained.setIter (h : Chained c s)
    (hk : k < s.nIters) (hsub : it.parents.Sublist (s.iters k).parents) (htodo : it.todo ⊆ (s.iters k).todo)
    (hrest : ∀ i ∈ it.rest, (s.futs i).calls = 0 ∧ ∃ p, it.parent = some p ∧ i ∈ (s.futs p).children)
    (hnd : it.rest.Nodup) : Chained c (s.setIter k it) :=
  h.putIter hk (Nat.le_refl _)
    (fun p hp => h.settled k p (hsub.subset hp)) (fun _ hp => .inl (hsub.subset hp))
    ((h.queue k).sublist hsub) (fun p hp => h.dueTodo k p (htodo hp)) hrest hnd

/-- A settled future joins the queue of an iterator. -/
theorem Chained.push (h : Chained c s) (hk : k < s.nIters)
    (hset : (s.futs i).outcome ≠ none) (hout : ∀ k', i ∉ (s.iters k').parents)
    (hdue : ∀ j ∈ (s.futs i).children, (s.futs j).calls = 0) :
    Chained c (s.setIter k { s.iters k with todo := (s.iters k).todo ++ [i] }) := by
  have hpar : ({ s.iters k with todo := (s.iters k).todo ++ [i] } : Iter).parents =
      (s.iters k).parents ++ [i] := by
    unfold Iter.parents
    rw [List.append_assoc]
  refine h.putIter hk (Nat.le_refl _) ?_ ?_ ?_ ?_
    (fun j hj => ⟨h.dueRest k j hj, h.rest k j hj⟩) (h.restNodup k)
  · grind [h.settled]
  · grind
  · grind [h.queue]
  · grind [h.dueTodo]

/-- A settled future gets an iterator of its own. -/
theorem Chained.createIterator (h : Chained c s) (hset : (s.futs i).outcome ≠ none)
    (hout : ∀ k', i ∉ (s.iters k').parents)
    (hdue : ∀ j ∈ (s.futs i).children, (s.futs j).calls = 0) : Chained c (createIterator s i) := by
  refine Chained.spawn (h.putIter (Nat.lt_succ_self _) (Nat.le_succ _)
    ?_ ?_ ?_ ?_ (fun j hj => by cases hj) List.nodup_nil) (Nat.lt_succ_self s.nIters)
  · intro p hp
    rw [List.mem_singleton.1 hp]
    exact hset
  · intro p hp
    rw [List.mem_singleton.1 hp]
    exact .inr hout
  · exact List.nodup_singleton i
  · intro p hp
    rw [List.mem_singleton.1 hp]
    exact hdue

/-- The state of an iterator changes, or the number of its coroutines. -/
theorem Chained.setState (h : Chained c s) (hk : k < s.nIters) (state : IterState) (active : Nat) :
    Chained c (s.setIter k { s.iters k with state := state, active := active }) :=
  h.setIter hk (List.Sublist.refl _) (List.Subset.refl _)
    (fun i hi => ⟨h.dueRest k i hi, h.rest k i hi⟩) (h.restNodup k)

theorem Chained.release (h : Chained c s) (hk : k < s.nIters) : Chained c (release s k) := by
  unfold Future.release
  split
  · exact h.setState hk (s.iters k).state _
  · exact h.setState hk .finished 0

theorem Chained.lt_workers (h : Chained c s) (hw : s.workers w ≠ .done) : w < s.nWorkers :=
  Nat.lt_of_not_le fun hle => hw (h.newWorker w hle)

theorem Chained.lt_futs (h : Chained c s)
    (hi : (s.futs i).source ≠ none ∨ (s.futs i).outcome ≠ none) : i < s.nFuts := by
  refine Nat.lt_of_not_le fun hle => ?_
  rw [h.newFut i hle] at hi
  rcases hi with hi | hi <;> exact hi rfl

theorem nextParent_some {children : Nat → List Nat} {todo : List Nat} {rest : List Nat}
    (h : nextParent children todo = some (p, rest)) : (p :: rest).Sublist todo := by
  induction todo with
  | nil => cases h
  | cons q todo ih => grind [nextParent]

/-- `valid()` stays with the current parent or takes one from the queue. -/
theorem valid_some {children : Nat → List Nat} {it' : Iter} (h : valid children it = some it') :
    it' = it ∨ ∃ p todo, (p :: todo).Sublist it.todo ∧
      it' = { it with parent := some p, rest := children p, todo := todo } := by
  unfold valid at h
  split at h
  · obtain ⟨⟨p, todo⟩, hn, rfl⟩ := Option.map_eq_some_iff.1 h
    exact .inr ⟨p, todo, nextParent_some hn, rfl⟩
  · exact .inl (Option.some.inj h).symm

theorem Chained.valid (h : Chained c s) (hk : k < s.nIters)
    (hv : valid s.children (s.iters k) = some it) (state : IterState) :
    Chained c (s.setIter k { it with state := state }) := by
  rcases valid_some hv with rfl | ⟨p, todo, hsub, rfl⟩
  · exact h.setState hk state _
  · have hp : p ∈ (s.iters k).todo := hsub.subset (List.mem_cons_self ..)
    refine h.setIter hk ?_ (fun q hq => hsub.subset (List.mem_cons_of_mem _ hq)) (fun i hi => ?_)
      (h.nodup p)
    · show ([p] ++ todo).Sublist ((s.iters k).parent.toList ++ (s.iters k).todo)
      exact hsub.trans (List.sublist_append_right _ _)
    · exact ⟨h.dueTodo k p hp i hi, p, rfl, hi⟩

/-! ## A child in hand -/

theorem Iter.next_some {it' : Iter} (h : it.next = some (p, i, it')) :
    it.parent = some p ∧ it.rest = i :: it'.rest ∧ it' = { it with rest := it'.rest } := by
  unfold Iter.next at h
  split at h
  · rename_i hp hr
    cases h
    exact ⟨hp, hr, rfl⟩
  · cases h

/-- The next child of the current parent is taken. -/
theorem Chained.next (h : Chained c s) (hk : k < s.nIters)
    (hn : (s.iters k).next = some (p, i, it)) :
    Chained c (s.setIter k it) ∧ Idle (s.setIter k it) i ∧ (s.futs p).outcome ≠ none ∧
      ∃ kd, (s.futs i).source = some (p, kd) := by
  obtain ⟨hp, hr, heq⟩ := Iter.next_some hn
  have hpar : it.parents = (s.iters k).parents := by rw [heq]; rfl
  have htodo : it.todo = (s.iters k).todo := by rw [heq]
  have hparent : it.parent = (s.iters k).parent := by rw [heq]
  have hmem : ∀ j ∈ it.rest, j ∈ (s.iters k).rest := fun j hj => by
    rw [hr]
    exact List.mem_cons_of_mem _ hj
  have hnd := h.restNodup k
  rw [hr, List.nodup_cons] at hnd
  have hi : i ∈ (s.iters k).rest := by rw [hr]; exact List.mem_cons_self ..
  obtain ⟨q, hq, hchild⟩ := h.rest k i hi
  have hqp : q = p := Option.some.inj (hq.symm.trans hp)
  subst hqp
  have hq' : q ∈ (s.iters k).parents := by
    unfold Iter.parents
    rw [hp]
    exact List.mem_cons_self ..
  have hset := h.settled k q hq'
  obtain ⟨kd, hsrc⟩ := h.child q i hchild
  -- a parent that has the child is this one
  have honly : ∀ p', i ∈ (s.futs p').children → p' = q := by grind [h.child]
  have hnotTodo : ∀ k', q ∉ (s.iters k').todo := by
    intro k' hk'
    have hin : q ∈ (s.iters k').parents := List.mem_append_right _ hk'
    have hkk := h.apart k' k q hin hq'
    subst hkk
    have hnodup := h.queue k'
    unfold Iter.parents at hnodup
    rw [hp] at hnodup
    exact (List.nodup_cons.1 hnodup).1 hk'
  refine ⟨?_, ?_, hset, kd, hsrc⟩
  · grind [h.setIter, h.dueRest, h.rest]
  · refine ⟨fun k' hi' => ?_, fun k' p' hp' hc => ?_, fun p' hp' hc => hset (honly p' hc ▸ hp'),
      fun w p' hw => ?_, h.dueRest k i hi⟩
    · simp only [St.setIter, update_apply] at hi'
      split at hi'
      · exact hnd.1 hi'
      · rename_i hkk
        obtain ⟨p', hp', hc⟩ := h.rest k' i hi'
        rw [honly p' hc] at hp'
        exact hkk (h.apart k' k q (by simp [Iter.parents, hp']) hq')
    · have hin : p' ∈ (s.iters k').todo := by
        simp only [St.setIter, update_apply] at hp'
        split at hp'
        · rename_i hkk
          rw [hkk, ← htodo]
          exact hp'
        · exact hp'
      exact hnotTodo k' (honly p' hc ▸ hin)
    · obtain ⟨-, -, hnc, kd', hs'⟩ := h.mapper w p' i hw
      rw [hsrc] at hs'
      cases hs'
      exact hnc hchild

/-- The child an iterator comes to next. -/
def upcoming (s : St V E) (k : Nat) : Option (Nat × Nat × Iter) :=
  (valid s.children (s.iters k)).bind Iter.next

/-- The cursor goes to the next child, then behind it. -/
theorem Chained.take (h : Chained c s) (hk : k < s.nIters) (hn : upcoming s k = some (p, i, it)) :
    Chained c (s.setIter k it) ∧ Idle (s.setIter k it) i ∧ (s.futs p).outcome ≠ none ∧
      ∃ kd, (s.futs i).source = some (p, kd) := by
  obtain ⟨it₀, hv, hnext⟩ := Option.bind_eq_some_iff.1 hn
  have h₁ := h.valid hk hv it₀.state
  obtain ⟨h₂, hidle, hset, hsrc⟩ := Chained.next h₁ hk (show ((s.setIter k it₀).iters k).next = _ by
    rw [setIter_self]
    exact hnext)
  have heq : (s.setIter k it₀).setIter k it = s.setIter k it := by
    unfold St.setIter
    rw [update_idem]
  exact ⟨heq ▸ h₂, heq ▸ hidle, hset, hsrc⟩

/-- The coroutine of a mapper starts. -/
theorem Chained.runs (h : Chained c s) (hw : s.workers w = .mapper p i) :
    Chained c (s.setWorker w .done) ∧ Idle (s.setWorker w .done) i := by
  obtain ⟨hp, hcalls, hnc, kd, hsrc⟩ := h.mapper w p i hw
  have honly : ∀ p', i ∉ (s.futs p').children := by grind [h.child]
  refine ⟨h.setDone (h.lt_workers (by rw [hw]; simp)), fun k hi => ?_,
    fun k p' _ => honly p', fun p' _ => honly p', fun w' p' hw' => ?_, hcalls⟩
  · obtain ⟨p', -, hc⟩ := h.rest k i hi
    exact honly p' hc
  · change update s.workers w .done w' = _ at hw'
    by_cases hww : w' = w
    · subst hww
      rw [update_self] at hw'
      cases hw'
    · rw [update_of_ne hww] at hw'
      exact hww (h.mapperOne w' w p' p i hw' hw)

/-! ## Resolving -/

/-- What resolving a future leaves alone, besides the futures and iterators it is about. -/
structure Grown (s t : St V E) : Prop where
  nWorkers : s.nWorkers ≤ t.nWorkers
  workers : ∀ w, w < s.nWorkers → t.workers w = s.workers w

theorem Grown.refl (s : St V E) : Grown s s := ⟨Nat.le_refl _, fun _ _ => rfl⟩

theorem createIterator_grown (s : St V E) (i : Nat) : Grown s (createIterator s i) where
  nWorkers := Nat.le_succ _
  workers w hw := by
    show update s.workers s.nWorkers _ w = _
    rw [update_of_ne (by omega)]

theorem callbackHandler_grown (s : St V E) (i : Nat) (it : Option Nat) : Grown s (callbackHandler s i it) := by
  unfold callbackHandler
  split
  · exact Grown.refl s
  · split
    · exact ⟨Nat.le_refl _, fun _ _ => rfl⟩
    · split
      · exact Grown.refl s
      · exact createIterator_grown s i

theorem resolve_grown (s : St V E) (i : Nat) (o : Outcome V E) (it : Option Nat) (external : Bool) :
    Grown s (resolve s i o it external) := by
  unfold resolve
  split
  · exact Grown.refl s
  · have h := callbackHandler_grown (record s i o external) i it
    exact ⟨h.nWorkers, h.workers⟩

/-! ## Derivation -/

/-- A future is made that nobody knows yet. -/
theorem Chained.addFut (h : Chained c s) (k : Kind) (hlt : p < s.nFuts) : Chained c { s with
      futs := update s.futs s.nFuts (Fut.create (some (p, k))), nFuts := s.nFuts + 1 } := by
  have hblank := h.newFut s.nFuts (Nat.le_refl _)
  -- besides its source the new future is as blank as before
  have hsame : ∀ j, update s.futs s.nFuts (Fut.create (some (p, k))) j =
      { s.futs j with source := if j = s.nFuts then some (p, k) else (s.futs j).source } := fun j => by
    by_cases hj : j = s.nFuts <;> simp [update_apply, hj, hblank, Fut.create]
  simp only [Fut.create] at hblank
  refine h.refut (fun i hi => ?_) ?_ (fun i q k' hs => ?_) ?_ ?_ ?_ ?_ ?_ ?_
  · rw [update_of_ne (by omega)]
    exact h.newFut i (by omega)
  rotate_left
  · rw [hsame] at hs
    split at hs
    · cases hs
      omega
    · exact h.older i q k' hs
  all_goals grind [h.nodup]

/-- The derivation of a pending source is appended to its children. -/
theorem Chained.addChild (h : Chained c s) {k : Kind} (hlt : p < s.nFuts)
    (hp : (s.futs p).outcome = none) (hcalls : (s.futs i).calls = 0) (hnc : i ∉ (s.futs p).children)
    (hs : (s.futs i).source = some (p, k)) :
    Chained c (s.setFut p { s.futs p with children := (s.futs p).children ++ [i] }) := by
  have hsame : ∀ j, update s.futs p { s.futs p with children := (s.futs p).children ++ [i] } j =
      { s.futs j with children := (s.futs j).children ++ if j = p then [i] else [] } := fun j => by
    by_cases hj : j = p <;> simp [hj]
  refine h.refut (n := s.nFuts) (fun i hi => ?_) ?_ (fun j q k' hs => ?_) ?_ ?_ ?_ ?_ ?_ ?_
  · rw [update_of_ne (by omega)]
    exact h.newFut i hi
  rotate_left
  · rw [hsame] at hs
    exact h.older j q k' hs
  all_goals grind [h.nodup]

/-! ## Results -/

def St.source (s : St V E) (i : Nat) : Option (Nat × Kind) := (s.futs i).source

/-- The outcomes that came from outside. -/
def St.given (s : St V E) (i : Nat) : Option (Outcome V E) :=
  if (s.futs i).external then (s.futs i).outcome else none

theorem Chained.denotes (h : Chained c s) (i : Nat) :
    ∀ o, (s.futs i).outcome = some o → Denotes c s.source s.given i o := by
  -- the source of a future is older than the future
  induction i using Nat.strongRecOn with
  | _ i ih =>
    intro o ho
    cases he : (s.futs i).external with
    | true =>
      refine .given ?_
      unfold St.given
      rw [he]
      exact ho
    | false =>
      obtain ⟨p, k, parent, hs, hp, rfl⟩ := h.composed i o ho he
      refine .derived ?_ hs (ih p (h.older i p k hs) parent hp)
      unfold St.given
      rw [he]
      rfl

end PhpAsync.L2.Future
