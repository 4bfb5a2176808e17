import PhpAsync.L2Future.Cover

/-!
# Whether a tree settles

The iterator is finished when one of its coroutines finds the queue empty. A callable
that is suspended at that moment settles its future later and puts it into a queue that
nobody reads: what is derived from it stays pending. And a child that is rejected with
nobody to handle the exception throws in the coroutine of the iterator, which finishes
the iterator with the siblings still to be visited. (`tree_stays_pending`)

And where a future is settled by no iterator, no coroutine can be spawned for its children
if the scope in which they were derived is closed.

`Unbroken` excludes the three: a callable that returns behind the end of its iterator has
no derivations, a rejected child has a derivation or a subscriber, unless it was the last,
and the scope of derivations is open. No coroutine is cancelled before it starts.

A `finally()` whose source is rejected destroys what its callable returned twice, which may
be the exception itself (`finally_frees_exception`). `Single` keeps the runs in which no
such callable returns a counted value.

* `chain_outcome`: in every run every settled future has the outcome it denotes, every
  callable was called at most once, and two runs with the same tree and the same outcomes
  from outside agree on every future that both have settled; in a `Single` run nothing an
  outcome holds was destroyed under it.
* `tree_settles`: in an unbroken run, when no coroutine is left, everything derived from
  a settled future is settled.
-/
namespace PhpAsync.L2.Future

open PhpAsync.Core

variable {V E : Type} {X : Nat → Prop} {c : Env V E} {i k p w : Nat} {it : Option Nat} {s t : St V E}

/-! ## The hypothesis -/

/-- The child `i` is to be rejected. -/
def rejects (c : Env V E) (s : St V E) (p i : Nat) : Bool :=
  match (s.futs p).outcome, (s.futs i).source with
  | some parent, some (_, k) => (compose c k (c.callable i) parent).isError
  | _, _ => false

/-- An exception of `i` is or will be handled. -/
def heard (s : St V E) (i : Nat) : Bool :=
  (s.futs i).handled ||
    ((s.futs i).outcome.isNone && ((s.futs i).awaited || !(s.futs i).children.isEmpty))

/-- Somebody comes for the children of `i` when it is settled. -/
def Receives (s : St V E) (i : Nat) (it : Option Nat) : Prop :=
  (s.futs i).children = [] ∨
    match it with
    | some k => (s.iters k).state ≠ .finished
    | none => (s.futs i).closed = false

instance (s : St V E) (i : Nat) : ∀ it, Decidable (Receives s i it)
  | some _ => inferInstanceAs (Decidable (_ ∨ _ ≠ _))
  | none => inferInstanceAs (Decidable (_ ∨ _ = _))

def Unbroken (c : Env V E) (s : St V E) : Lbl V E → Prop
  | .settle i _ => Receives s i none
  | .run w false =>
    match s.workers w with
    | .mapper _ i => Receives s i none
    | _ => True
  | .visit w false =>
    match s.workers w with
    | .looping k =>
      match upcoming s k with
      | some (p, i, it) =>
        rejects c s p i = true → heard s i = true ∨ (it.rest = [] ∧ it.todo = [])
      | none => True
    | _ => True
  | .return_ w =>
    match s.workers w with
    | .inside (some k) p i =>
      Receives s i (some k) ∧
      (rejects c s p i = true → heard s i = true ∨ ((s.iters k).rest = [] ∧ (s.iters k).todo = []))
    | .inside none _ i => Receives s i none
    | _ => True
  | .drop _ => False
  | _ => True

instance (c : Env V E) : ∀ (s : St V E) (l : Lbl V E), Decidable (Unbroken c s l) := by
  intro s l
  unfold Unbroken
  split
  · infer_instance
  · split <;> infer_instance
  · split
    · split <;> infer_instance
    · infer_instance
  · split <;> infer_instance
  · infer_instance
  · infer_instance

/-- Derived from `r`, directly or not. -/
inductive Descends (s : St V E) (r : Nat) : Nat → Prop
  | child {i : Nat} {k : Kind} (h : (s.futs i).source = some (r, k)) : Descends s r i
  | step {p i : Nat} {k : Kind} (h : (s.futs i).source = some (p, k)) (hp : Descends s r p) :
      Descends s r i

/-! ## The invariant of a run -/

/-- `Chained` holds in every run; `G` says that the run is unbroken so far. -/
structure Inv (c : Env V E) (G : Prop) (X : Nat → Prop) (s : St V E) : Prop where
  chained : Chained c s
  covered : G → Covered X s

variable {G : Prop}

theorem Inv.mono {Y : Nat → Prop} (h : Inv c G X s) (hXY : ∀ i, X i → (s.futs i).outcome = none → Y i) : Inv c G Y s :=
  ⟨h.chained, fun g => (h.covered g).mono hXY⟩

theorem Inv.callbackHandler (h : Inv c G (fun j => j ∈ (s.futs i).children ∨ X j) s)
    (hk : ∀ k, it = some k → k < s.nIters) (hset : (s.futs i).outcome ≠ none) (hout : ∀ k', i ∉ (s.iters k').parents)
    (hdue : ∀ j ∈ (s.futs i).children, (s.futs j).calls = 0)
    (hopen : G → Receives s i it) : Inv c G X (callbackHandler s i it) := by
  have hC := h.chained
  unfold Future.callbackHandler
  split
  · rename_i he
    have he' : (s.futs i).children = [] := List.isEmpty_iff.1 he
    exact h.mono fun j hj _ => hj.resolve_left (by simp [he'])
  · rename_i he
    cases it with
    | some k =>
      have ht := (hC.push (hk k rfl) hset hout hdue).setFlag (hC.lt_futs (.inr hset)) (s.futs i).awaited true
        (s.futs i).closed
      refine ⟨ht, fun g => ?_⟩
      have h₁ : Covered (fun j => j ∈ (s.futs i).children ∨ X j)
          (s.setIter k { s.iters k with todo := (s.iters k).todo ++ [i] }) :=
        (h.covered g).setIter (fun hne => hne) (fun _ => id) fun p j hj => .inr
          (hj.imp_right (Or.imp_left (And.imp_left (List.mem_append_left _))))
      have h₂ := h₁.setFlag (j := i) (f := { s.futs i with handled := true }) rfl rfl rfl
      refine Covered.dueQueued (i := i) (k := k) ht (h₂.mono fun j hj _ => hj.imp_left fun hj' => ?_) ?_ ?_
      · rw [setFut_self]
        exact hj'
      · rw [St.setFut_iters, setIter_self]
        exact (hopen g).resolve_left fun h' => he (List.isEmpty_iff.2 h')
      · rw [St.setFut_iters, setIter_self]
        exact List.mem_concat_self
    | none =>
      dsimp only
      split
      · rename_i hclosed
        refine ⟨hC, fun g => ?_⟩
        have hyes := (hopen g).resolve_left fun h' => he (List.isEmpty_iff.2 h')
        rw [show (s.futs i).closed = false from hyes] at hclosed
        cases hclosed
      have ht := hC.createIterator hset hout hdue
      exact ⟨ht, fun g => Covered.dueQueued (i := i) (k := s.nIters) ht ((h.covered g).createIterator
        (hC.newIter _ (Nat.le_refl _)) (hC.newWorker _ (Nat.le_refl _)) i)
        (by simp [Future.createIterator, St.spawn]) (by simp [Future.createIterator, St.spawn])⟩

/-- Behind a resolution the children of the future are due, if the iterator that resolved
it goes on. -/
theorem Inv.resolve (h : Inv c G X s) {o : Outcome V E} {external : Bool} (hlt : i < s.nFuts)
    (hk : ∀ k, it = some k → k < s.nIters)
    (ho : external = false → ∃ p k parent, (s.futs i).source = some (p, k) ∧
      (s.futs p).outcome = some parent ∧ o = compose c k (c.callable i) parent)
    (hopen : G → Receives s i it) : Inv c G X (resolve s i o it external) := by
  unfold Future.resolve
  split
  · exact h
  · rename_i hsome
    have hnone : (s.futs i).outcome = none := by simpa using hsome
    have hch : ((record s i o external).futs i).children = (s.futs i).children := by rw [record, setFut_self]
    have h₁ : Inv c G (fun j => j ∈ ((record s i o external).futs i).children ∨ X j) (record s i o external) := by
      rw [hch]
      exact ⟨h.chained.settle hlt hnone ho, fun g => (h.covered g).settle rfl rfl nofun⟩
    refine h₁.callbackHandler hk ?_ (fun k' hp => h.chained.settled k' i hp hnone) (fun j hj => ?_) fun g => ?_
    · rw [record, setFut_self]
      exact nofun
    · refine Eq.trans ?_ (h.chained.duePending i hnone j (hch ▸ hj))
      exact update_rel (fun f g => g.calls = f.calls) (fun _ => rfl) j (by exact rfl)
    · simpa only [Receives, record, setFut_self, St.setFut_iters] using hopen g

theorem callbackHandler_outcome (s : St V E) (i : Nat) (it : Option Nat) (j : Nat) :
    ((callbackHandler s i it).futs j).outcome = (s.futs j).outcome := by
  unfold callbackHandler
  split
  · rfl
  · split
    · exact update_rel (fun f g => g.outcome = f.outcome) (fun _ => rfl) j (by exact rfl)
    · split <;> rfl

theorem resolve_settled (s : St V E) (i : Nat) (o : Outcome V E) (it : Option Nat) (external : Bool) :
    ((resolve s i o it external).futs i).outcome ≠ none := by
  unfold resolve
  split
  · rename_i h
    exact Option.isSome_iff_ne_none.1 h
  · grind [callbackHandler_outcome, setFut_self, record]

/-- An iterator that resolves a future either queues it, and then its exception counts as
handled, or is left as it was. -/
theorem resolve_unhandled {o : Outcome V E} (ho : o.isError = true)
    (h : ((resolve s i o (some k) false).futs i).handled = false) :
    heard s i = false ∧ (resolve s i o (some k) false).iters = s.iters := by
  unfold resolve at h ⊢
  split
  · rename_i hs
    rw [if_pos hs] at h
    refine ⟨?_, rfl⟩
    unfold heard
    rw [h]
    cases ho' : (s.futs i).outcome with
    | none => rw [ho'] at hs; cases hs
    | some o => rfl
  · rename_i hs
    rw [if_neg hs] at h
    have hnone : (s.futs i).outcome = none := by simpa using hs
    unfold callbackHandler at h ⊢
    split
    · rename_i he
      rw [if_pos he] at h
      refine ⟨?_, rfl⟩
      have hch : (s.futs i).children.isEmpty = true := by
        unfold record St.children at he
        rw [setFut_self] at he
        exact he
      unfold record at h
      rw [setFut_self] at h
      have h' : ((s.futs i).handled || ((s.futs i).awaited && o.isError)) = false := h
      rw [ho, Bool.and_true, Bool.or_eq_false_iff] at h'
      unfold heard
      rw [h'.1, h'.2, hch, hnone]
      rfl
    · rename_i he
      rw [if_neg he] at h
      rw [setFut_self] at h
      cases h

/-! ## The mapper -/

/-- The coroutine that runs the mapper of `i`. -/
def Busy (s : St V E) (w : Nat) (it : Option Nat) (p i : Nat) : Prop :=
  (it = none ∧ s.workers w = .done) ∨ (∃ k, it = some k ∧ s.workers w = .looping k) ∨
    s.workers w = .inside it p i

theorem Busy.iter (h : Busy s w it p i) : ∀ k, (s.workers w).iter = some k → it = some k := by
  intro k hk
  rcases h with ⟨-, h⟩ | ⟨k', rfl, h⟩ | h <;> rw [h] at hk
  · cases hk
  · exact hk
  · exact hk

theorem Busy.has (h : Busy s w it p i) : ∀ p' i', (s.workers w).Has p' i' → i' = i := by
  intro p' i' hw
  rcases h with ⟨-, h⟩ | ⟨k', -, h⟩ | h <;> simp_all [Worker.Has]

theorem Busy.known (h : Busy s w it p i) (hC : Chained c s) (k : Nat) (hk : it = some k) : k < s.nIters := by
  refine hC.known w k ?_
  rcases h with ⟨rfl, -⟩ | ⟨k', rfl, h⟩ | h
  · cases hk
  · rw [h]
    exact hk
  · rw [h]
    exact hk

theorem Inv.setDone (h : Inv c G X s) (hw : w < s.nWorkers)
    (hiter : (s.workers w).iter = none) (hin : ∀ p i, (s.workers w).Has p i → (s.futs i).outcome ≠ none ∨ X i) :
    Inv c G X (s.setWorker w .done) :=
  ⟨h.chained.setDone hw, fun g => (h.covered g).setWorker (by simp [hiter]) hin⟩

theorem Inv.finish (h : Inv c G X s) (hw : w < s.nWorkers) (hk : k < s.nIters)
    (hleft : G → ∀ p i, ¬ (s.iters k).Has s.children p i) (hiter : ∀ k', (s.workers w).iter = some k' → k' = k)
    (hin : ∀ p i, (s.workers w).Has p i → (s.futs i).outcome ≠ none ∨ X i) : Inv c G X (finish s w k) :=
  ⟨((h.chained.setState hk .finished (s.iters k).active).release hk).setDone hw,
    fun g => (h.covered g).finish (hleft g) hiter hin⟩

theorem Inv.goOn (h : Inv c G X s) {unhandled : Bool} (hw : w < s.nWorkers) (hb : Busy s w it p i)
    (hi : (s.futs i).outcome ≠ none)
    (hleft : G → ∀ k, it = some k → unhandled = true → (s.iters k).rest = [] ∧ (s.iters k).todo = []) :
    Inv c G X (goOn s w it unhandled) := by
  have hin : ∀ p' i', (s.workers w).Has p' i' → (s.futs i').outcome ≠ none ∨ X i' := fun p' i' hw =>
    .inl (hb.has p' i' hw ▸ hi)
  unfold Future.goOn
  split
  · exact h.setDone hw (Option.eq_none_iff_forall_ne_some.2 fun k hk => absurd (hb.iter k hk) nofun) hin
  · rename_i k
    have hk := hb.known h.chained k rfl
    split
    · rename_i hu
      refine h.finish hw hk (fun g => ?_) (fun k' hk' => (Option.some.inj (hb.iter k' hk')).symm) hin
      obtain ⟨h1, h2⟩ := hleft g k rfl hu
      simp [Iter.Has, h1, h2]
    · exact ⟨h.chained.setWorker hw (by simp) (fun k' hk' => Option.some.inj hk' ▸ hk) (by simp),
        fun g => (h.covered g).setWorker (fun k' hk' => .inl (hb.iter k' hk')) hin⟩

/-- The child gets what the recursive definition says. -/
theorem Inv.conclude {k : Kind} {parent : Outcome V E} {ret : Option (Outcome V E)}
    (h : Inv c G (fun j => j = i ∨ X j) s) (hw : w < s.nWorkers) (hb : Busy s w it p i)
    (hs : (s.futs i).source = some (p, k)) (hp : (s.futs p).outcome = some parent)
    (hret : ret = if shouldCall k parent then some (c.callable i parent) else none)
    (hopen : G → Receives s i it)
    (hleft : G → ∀ k, it = some k → rejects c s p i = true →
      heard s i = true ∨ ((s.iters k).rest = [] ∧ (s.iters k).todo = [])) :
    Inv c G X (conclude c s w it i k parent ret) := by
  have hmap : mapped c k parent ret = compose c k (c.callable i) parent := by
    rw [hret]
    exact mapped_compose c k (c.callable i) parent
  have hg := resolve_grown s i (mapped c k parent ret) it false
  have h₁ : Inv c G (fun j => j = i ∨ X j) (Future.resolve s i (mapped c k parent ret) it false) :=
    h.resolve (h.chained.lt_futs (.inl (by rw [hs]; simp))) (hb.known h.chained)
      (fun _ => ⟨p, k, parent, hs, hp, hmap⟩) hopen
  have hset := resolve_settled s i (mapped c k parent ret) it false
  have hb' : Busy (Future.resolve s i (mapped c k parent ret) it false) w it p i := by
    unfold Busy
    rw [hg.workers w hw]
    exact hb
  refine (h₁.mono fun j hj hn => hj.resolve_left (by rintro rfl; exact hset hn)).goOn
    (Nat.lt_of_lt_of_le hw hg.nWorkers) hb' hset fun g k' hk' hu => ?_
  subst hk'
  rw [Bool.and_eq_true, Bool.not_eq_true'] at hu
  obtain ⟨hunheard, hiters⟩ := resolve_unhandled hu.1 hu.2
  rw [hiters]
  refine (hleft g k' rfl ?_).resolve_left (by rw [hunheard]; simp)
  unfold rejects
  rw [hp, hs]
  show (compose c k (c.callable i) parent).isError = true
  rw [← hmap]
  exact hu.1

theorem beginCall_eq (s : St V E) (p i : Nat) (k : Kind) : beginCall s p i k = { s with
    futs := fun j => { s.futs j with
      calls := if j = i then (s.futs j).calls + 1 else (s.futs j).calls
      handled := (k = .catch_ ∧ j = p) || (s.futs j).handled } } := by
  have hf : (fun j => { s.futs j with
      calls := if j = i then (s.futs j).calls + 1 else (s.futs j).calls
      handled := (k = .catch_ ∧ j = p) || (s.futs j).handled }) = (beginCall s p i k).futs := by
    funext j
    by_cases hk : k = .catch_ <;> rcases eq_or_ne j p with rfl | hp <;> rcases eq_or_ne j i with rfl | hi <;>
      simp [beginCall, St.setFut, *]
  rw [hf]
  unfold beginCall
  split <;> rfl

theorem Inv.beginCall (h : Inv c G X s) (k : Kind) (hi : Idle s i) (hlt : i < s.nFuts) (hp : p < s.nFuts) :
    Inv c G X (beginCall s p i k) := by
  have hC := h.chained.called hi hlt
  have hS := fun g => (h.covered g).setFlag (j := i) (f := { s.futs i with calls := (s.futs i).calls + 1 }) rfl rfl rfl
  unfold Future.beginCall
  split
  · exact ⟨hC.setFlag hp _ true _, fun g => (hS g).setFlag rfl rfl rfl⟩
  · exact ⟨hC, hS⟩

theorem Inv.processFutureMapper {kd : Kind} {suspends : Bool} (h : Inv c G (fun j => j = i ∨ X j) s)
    (hw : w < s.nWorkers) (hb : (it = none ∧ s.workers w = .done) ∨ ∃ k, it = some k ∧ s.workers w = .looping k)
    (hopen : G → suspends = false → Receives s i it) (hi : Idle s i)
    (hp : (s.futs p).outcome ≠ none) (hs : (s.futs i).source = some (p, kd))
    (hleft : G → suspends = false → ∀ k, it = some k → rejects c s p i = true → heard s i = true ∨
      ((s.iters k).rest = [] ∧ (s.iters k).todo = []))
    (ht : processFutureMapper c s w it p i suspends = some t) : Inv c G X t := by
  have hC := h.chained
  have hlt : i < s.nFuts := hC.lt_futs (.inl (by rw [hs]; simp))
  have hpi : p ≠ i := Nat.ne_of_lt (hC.older i p kd hs)
  have hb' : Busy s w it p i := hb.imp id .inl
  unfold Future.processFutureMapper at ht
  split at ht
  · rename_i parent _ _ _ hparent hsrc
    rw [hs] at hsrc
    cases hsrc
    split at ht
    · rename_i hcall
      have hB := h.beginCall kd hi hlt (hC.lt_futs (.inr hp))
      rw [beginCall_eq] at hB ht
      split at ht
      · cases ht
        refine ⟨hB.chained.setWorker hw (by simp) (hb'.known hC) fun it' p' i' hx => ?_,
          fun g => (hB.covered g).suspend ⟨kd, hs⟩ hb'.iter ?_⟩
        · cases hx
          exact ⟨kd, parent, hs, hparent, hcall⟩
        · rcases hb with ⟨-, hb⟩ | ⟨k, -, hb⟩ <;> simp [hb, Worker.Has]
      · rename_i hsus
        cases ht
        refine hB.conclude hw hb' hs hparent (by rw [if_pos hcall]) (fun g => hopen g (Bool.eq_false_iff.2 hsus))
          fun g k hk hr => ?_
        simpa [heard, hpi.symm] using hleft g (Bool.eq_false_iff.2 hsus) k hk hr
    · rename_i hcall
      split at ht
      · cases ht
      · rename_i hsus
        cases ht
        exact h.conclude hw hb' hs hparent (by rw [if_neg hcall]) (fun g => hopen g (Bool.eq_false_iff.2 hsus))
          fun g => hleft g (Bool.eq_false_iff.2 hsus)
  · rename_i hno
    have hset : (s.futs i).outcome ≠ none := by
      intro hn
      cases hpo : (s.futs p).outcome with
      | none => exact hp hpo
      | some parent => exact hno parent p kd hn hpo hs
    split at ht
    · cases ht
    · cases ht
      refine Inv.goOn (h.mono fun j hj hn => hj.resolve_left ?_) hw hb' hset fun _ k _ hu => by cases hu
      rintro rfl
      exact hset hn

/-! ## The other steps -/

theorem Inv.visit (h : Inv c G X s) {suspends : Bool} (hw : s.workers w = .looping k)
    (hG : G → Unbroken c s (.visit w suspends)) (ht : visit c s w k suspends = some t) : Inv c G X t := by
  have hC := h.chained
  have hlt := hC.lt_workers (w := w) (by rw [hw]; simp)
  have hk : k < s.nIters := hC.known w k (by rw [hw]; rfl)
  have hiter : ∀ k', (s.workers w).iter = some k' → k' = k := fun k' hk' => by
    rw [hw] at hk'
    exact (Option.some.inj hk').symm
  have hin : ∀ p i, (s.workers w).Has p i → (s.futs i).outcome ≠ none ∨ X i := by simp [hw, Worker.Has]
  unfold Future.visit at ht
  split at ht
  · -- another coroutine has finished the iterator
    rename_i hst
    split at ht
    · cases ht
    · cases ht
      exact ⟨(hC.release hk).setDone hlt, fun g => (h.covered g).leave hst hiter hin⟩
  · rename_i hst
    split at ht
    · -- the queue is empty
      rename_i hnone
      split at ht
      · cases ht
      · cases ht
        have hval : valid s.children (s.iters k) = none := by
          cases hv : valid s.children (s.iters k) with
          | none => rfl
          | some it =>
            rw [hv] at hnone
            refine absurd hnone (valid_next hv fun hr => ?_)
            obtain ⟨i, hi⟩ := List.exists_mem_of_ne_nil _ hr
            obtain ⟨p, hp, -⟩ := hC.rest k i hi
            rw [hp]
            simp
        refine Inv.finish ⟨hC.setIter hk (List.nil_sublist _) (List.nil_subset _) (by simp) List.nodup_nil, fun g => ?_⟩
          hlt hk (fun _ => by simp [Iter.Has]) hiter hin
        exact (h.covered g).setIter (fun hne => hne) (fun _ => id) fun p i h' => absurd h' (valid_none hval p i)
    · rename_i p i it hnext
      obtain ⟨hstate, hdue⟩ := upcoming_due hst hnext
      obtain ⟨hC', hidle, hset, kd, hsrc⟩ := hC.take hk hnext
      have h₁ : Inv c G (fun j => j = i ∨ X j) (s.setIter k it) :=
        ⟨hC', fun g => (h.covered g).setIter (fun _ => hst) (fun _ => .inr) fun q j hj => (hdue q j hj).imp_left .inl⟩
      refine h₁.processFutureMapper hlt (.inr ⟨k, rfl, hw⟩) (fun _ _ => .inr ?_) hidle hset hsrc (fun g hsus => ?_) ht
      · show ((s.setIter k it).iters k).state ≠ .finished
        rwa [setIter_self]
      · rintro k' ⟨⟩
        subst hsus
        rw [setIter_self]
        have hG' := hG g
        simp only [Unbroken, hw, show upcoming s k = some (p, i, it) from hnext] at hG'
        exact hG'

theorem Inv.enter (h : Inv c G X s) (hw : s.workers w = .entry k) : Inv c G X (enter s w k) := by
  have hC := h.chained
  have hlt := hC.lt_workers (w := w) (by rw [hw]; simp)
  have hk : k < s.nIters := hC.known w k (by rw [hw]; rfl)
  have hlooping : ∀ t : St V E, Inv c G X t → t.workers = s.workers → t.nWorkers = s.nWorkers →
      t.nIters = s.nIters → Inv c G X (t.setWorker w (.looping k)) := by
    refine fun t ht h1 h2 h3 => ⟨ht.chained.setWorker (h2 ▸ hlt) (by simp)
      (fun k' hk' => Option.some.inj hk' ▸ h3 ▸ hk) (by simp), fun g => (ht.covered g).setWorker (fun k' hk' => .inl ?_) ?_⟩
    · rw [h1, hw] at hk'
      exact hk'
    · simp [h1, hw, Worker.Has]
  unfold Future.enter
  dsimp only
  split
  · rename_i hst
    refine hlooping _ ⟨?_, fun g => (h.covered g).setIter (fun _ => by rw [hst]; simp) (fun _ => id) fun p i h' => ?_⟩ rfl rfl rfl
    · cases hv : Future.valid s.children (s.iters k) with
      | some it => exact hC.valid hk hv .started
      | none =>
        refine hC.setIter hk (List.nil_sublist _) (List.nil_subset _) (fun i hi => ?_) (hC.restNodup k)
        exact absurd ⟨by rw [hst]; simp, .inr hi⟩ (valid_none hv 0 i)
    · cases hv : valid s.children (s.iters k) with
      | some it => exact .inr ⟨by simp, ((valid_due hv h'.1).2 p i h').2⟩
      | none => exact absurd h' (valid_none hv p i)
  · exact hlooping s h rfl rfl rfl

/-- A derivation: its coroutine, or the children of its source, have it. -/
theorem Covered.derive (hC : Chained c s) (h : Covered X s) {k : Kind} (hi : t.iters = s.iters)
    (hw : ∀ v, (∀ k, (s.workers v).iter = some k → (t.workers v).iter = some k) ∧
      ∀ p i, (s.workers v).Has p i → (t.workers v).Has p i)
    (hold : ∀ j, j ≠ s.nFuts → (t.futs j).source = (s.futs j).source ∧ (t.futs j).outcome = (s.futs j).outcome ∧
      (s.futs j).children ⊆ (t.futs j).children) (hnew : (t.futs s.nFuts).source = some (p, k))
    (hlt : p < s.nFuts) (hwait : (s.futs p).outcome = none → s.nFuts ∈ (t.futs p).children)
    (hdue : (s.futs p).outcome ≠ none → Due t p s.nFuts) : Covered X t := by
  have hblank := hC.newFut s.nFuts (Nat.le_refl _)
  -- nothing is derived from a future that is just made
  have hcase : ∀ q i k', (t.futs i).source = some (q, k') → (t.futs q).outcome = (s.futs q).outcome ∧
      ((i = s.nFuts ∧ q = p) ∨ (i ≠ s.nFuts ∧ q ≠ s.nFuts ∧ (s.futs i).source = some (q, k'))) := by
    intro q i k' hs
    by_cases hin : i = s.nFuts
    · subst hin
      rw [hnew] at hs
      cases hs
      exact ⟨(hold p (Nat.ne_of_lt hlt)).2.1, .inl ⟨rfl, rfl⟩⟩
    · rw [(hold i hin).1] at hs
      have hq : q ≠ s.nFuts := by
        rintro rfl
        rw [hC.newFut i (Nat.le_of_lt (hC.older i _ _ hs))] at hs
        cases hs
      exact ⟨(hold q hq).2.1, .inr ⟨hin, hq, hs⟩⟩
  refine h.change (fun q i k' hs hq hi' => ?_) (fun q i k' hs hq => ?_) (fun q => ?_) (fun _ => id)
    (fun k' hk' => .inr ⟨hi ▸ hk', fun v => (hw v).1 k'⟩) (fun _ _ _ h' => .inr (hi ▸ h'))
    fun v q i h' _ => .inr ((hw v).2 q i h')
  · obtain ⟨ho, ⟨rfl, rfl⟩ | ⟨hin, -, hs'⟩⟩ := hcase q i k' hs
    · exact .inr (.inr (hdue (ho ▸ hq)))
    · exact .inl ⟨hs', ho ▸ hq, (hold i hin).2.1 ▸ hi'⟩
  · obtain ⟨ho, ⟨rfl, rfl⟩ | ⟨-, hqn, hs'⟩⟩ := hcase q i k' hs
    · exact hwait (ho ▸ hq)
    · exact (hold q hqn).2.2 (h.waiting q i k' hs' (ho ▸ hq))
  · by_cases hq : q = s.nFuts
    · rw [hq, St.children, hblank]
      exact List.nil_subset _
    · exact (hold q hq).2.2

theorem Inv.createMapper (h : Inv c G X s) (k : Kind) (hlt : p < s.nFuts) : Inv c G X (createMapper s p k) := by
  have hC := h.chained
  have hblank := hC.newFut s.nFuts (Nat.le_refl _)
  have h₁ := hC.addFut k hlt
  have hne : p ≠ s.nFuts := Nat.ne_of_lt hlt
  have hnc : s.nFuts ∉ (Function.update s.futs s.nFuts (Fut.create (some (p, k))) p).children := by
    rw [Function.update_of_ne hne]
    intro hp
    obtain ⟨k', hk'⟩ := hC.child p _ hp
    rw [hblank] at hk'
    cases hk'
  unfold Future.createMapper
  dsimp only
  split
  · rename_i hset
    refine ⟨h₁.putWorker (Nat.lt_succ_self _) (Nat.le_succ _) (by simp [Worker.iter]) ?_ (by simp), fun g => ?_⟩
    · rintro _ _ ⟨⟩
      refine ⟨⟨Option.isSome_iff_ne_none.1 hset, by simp [Fut.create], hnc, k, by simp [Fut.create]⟩,
        fun w p' hw => ?_⟩
      obtain ⟨-, -, -, k', hk'⟩ := hC.mapper w p' s.nFuts hw
      rw [hblank] at hk'
      cases hk'
    · rw [Function.update_of_ne hne] at hset
      refine (h.covered g).derive hC rfl (spawn_keeps (hC.newWorker _ (Nat.le_refl _)) _) (fun j hj => ?_) (k := k)
        (by simp [St.spawn, Fut.create]) hlt (fun hn => by simp [hn] at hset) fun _ => .mapper (Function.update_self ..)
      simp [St.spawn, Function.update_of_ne hj]
  · rename_i hset
    refine ⟨h₁.addChild (Nat.lt_succ_of_lt hlt) (by simpa using hset) (by simp [Fut.create]) hnc (k := k)
      (by simp [Fut.create]), fun g => ?_⟩
    rw [Function.update_of_ne hne] at hset
    refine (h.covered g).derive hC rfl (fun _ => ⟨fun _ => id, fun _ _ => id⟩) (fun j hj => ?_) (k := k)
      (by simp [St.setFut, Function.update_of_ne hne.symm, Fut.create]) hlt
      (fun _ => by simp) fun hn => absurd (Option.isSome_iff_ne_none.2 hn) hset
    by_cases hjs : j = p
    · subst hjs
      simp [Function.update_of_ne hne]
    · simp [setFut_ne _ _ _ _ hjs, Function.update_of_ne hj]

/-- The coroutine of a mapper starts. -/
theorem Inv.run (h : Inv c G X s) {suspends : Bool} (hw : s.workers w = .mapper p i)
    (hG : G → Unbroken c s (.run w suspends))
    (ht : Future.processFutureMapper c (s.setWorker w .done) w none p i suspends = some t) : Inv c G X t := by
  have hC := h.chained
  obtain ⟨hC₁, hidle⟩ := hC.runs hw
  obtain ⟨hp, -, -, kd, hs⟩ := hC.mapper w p i hw
  have h₁ : Inv c G (fun j => j = i ∨ X j) (s.setWorker w .done) := by
    refine ⟨hC₁, fun g => ((h.covered g).mono fun j hj _ => .inr hj).setWorker (by simp [hw, Worker.iter])
      fun p' i' h' => ?_⟩
    simp only [hw, Worker.Has, Worker.mapper.injEq] at h'
    simp_all
  refine h₁.processFutureMapper (hC.lt_workers (by rw [hw]; simp)) (.inl ⟨rfl, setWorker_self ..⟩) (fun g hsus => ?_)
    hidle hp hs (fun _ _ => (by simp)) ht
  subst hsus
  have hg := hG g
  simp only [Unbroken, hw] at hg
  exact hg

/-- The callable of a mapper that has suspended returns. -/
theorem Inv.return_ {q : Nat} {kd : Kind} {parent : Outcome V E} (h : Inv c G X s)
    (hw : s.workers w = .inside it p i) (hs : (s.futs i).source = some (q, kd))
    (hp : (s.futs p).outcome = some parent) (hG : G → Unbroken c s (.return_ w)) :
    Inv c G X (Future.conclude c s w it i kd parent (some (c.callable i parent))) := by
  obtain ⟨kd', parent', hs', hp', hcall⟩ := h.chained.inside w it p i hw
  cases hs.symm.trans hs'
  cases hp.symm.trans hp'
  have hG' : G → Receives s i it ∧ ∀ k', it = some k' → rejects c s p i = true → heard s i = true ∨
      ((s.iters k').rest = [] ∧ (s.iters k').todo = []) := by
    intro g
    have hg := hG g
    simp only [Unbroken, hw] at hg
    cases it with
    | none => exact ⟨hg, by simp⟩
    | some k => exact ⟨hg.1, fun k' hk' => Option.some.inj hk' ▸ hg.2⟩
  exact (h.mono fun j hj _ => .inr hj).conclude (h.chained.lt_workers (by rw [hw]; simp)) (.inr (.inr hw)) hs hp
    (by rw [if_pos hcall]) (fun g => (hG' g).1) fun g => (hG' g).2

/-! ## Runs -/

theorem Inv.step {l : Lbl V E} (h : Inv c G (fun _ => False) s) (hG : G → Unbroken c s l)
    (ht : Future.step c s l = some t) : Inv c G (fun _ => False) t := by
  have hC := h.chained
  cases l with
  | create =>
    cases ht
    exact ⟨{ hC with newFut := fun i hi => hC.newFut i (Nat.le_of_succ_le hi) }, fun g =>
      (h.covered g).keep (fun _ => ⟨rfl, rfl, rfl⟩) (fun _ => id) (fun _ hk => .inr ⟨hk, fun _ => id⟩)
        (fun _ _ _ => .inr) fun _ _ _ hv _ => .inr hv⟩
  | derive source k =>
    obtain ⟨hlt, ⟨⟩⟩ := Option.ite_none_right_eq_some.1 ht
    exact h.createMapper k hlt
  | settle i o =>
    obtain ⟨hi, ⟨⟩⟩ := Option.ite_none_right_eq_some.1 ht
    exact h.resolve hi.1 (by simp) (by simp) hG
  | await i on =>
    obtain ⟨hi, ⟨⟩⟩ := Option.ite_none_right_eq_some.1 ht
    exact ⟨hC.setFlag hi on _ _, fun g => (h.covered g).setFlag rfl rfl rfl⟩
  | close i =>
    obtain ⟨hi, ⟨⟩⟩ := Option.ite_none_right_eq_some.1 ht
    exact ⟨hC.setFlag hi _ _ true, fun g => (h.covered g).setFlag rfl rfl rfl⟩
  | enter w =>
    simp only [Future.step] at ht
    split at ht
    · rename_i k hw
      cases ht
      exact h.enter hw
    · cases ht
  | visit w suspends =>
    simp only [Future.step] at ht
    split at ht
    · rename_i k hw
      exact h.visit hw hG ht
    · cases ht
  | run w suspends =>
    simp only [Future.step] at ht
    split at ht
    · rename_i p i hw
      exact h.run hw hG ht
    · cases ht
  | return_ w =>
    simp only [Future.step] at ht
    split at ht
    · rename_i it p i hw
      split at ht
      · rename_i parent q k hparent hsrc
        cases ht
        exact h.return_ hw hsrc hparent hG
      · cases ht
    · cases ht
  | microtask k =>
    simp only [Future.step] at ht
    unfold Future.microtask at ht
    split at ht
    · rename_i hst
      cases ht
      have hk : k < s.nIters := by
        refine Nat.lt_of_not_le fun hle => ?_
        rw [hC.newIter k hle] at hst
        cases hst
      have h₁ : Inv c G (fun _ => False) (s.setIter k { s.iters k with active := (s.iters k).active + 1 }) :=
        ⟨hC.setState hk (s.iters k).state _, fun g => (h.covered g).setIter id (fun _ => id) fun _ _ => .inr⟩
      exact ⟨h₁.chained.spawn hk, fun g => (h₁.covered g).spawn (hC.newWorker _ (Nat.le_refl _)) _⟩
    · cases ht
  | drop w =>
    simp only [Future.step] at ht
    unfold Future.drop at ht
    split at ht
    · rename_i k hw
      cases ht
      exact ⟨(hC.release (hC.known w k (by rw [hw]; rfl))).setDone (hC.lt_workers (by rw [hw]; simp)),
        fun g => (hG g).elim⟩
    · rename_i p i hw
      cases ht
      exact ⟨hC.setDone (hC.lt_workers (by rw [hw]; simp)), fun g => (hG g).elim⟩
    · cases ht

theorem inv_init (hs : Init s) : Inv c G (fun _ => False) s := by
  have hs' : s = start := hs
  subst hs'
  exact ⟨chained_start c, fun _ => covered_start⟩

theorem covered_inductive (c : Env V E) : ((lts c).restrict (Unbroken c)).Inductive (Inv c True fun _ => False) where
  init _ hs := inv_init hs
  step _ _ _ h hst := h.step (fun _ => hst.1) hst.2

/-! ## What the callables return -/

/-- The mapper that a step brings to its end: its source and its child. -/
def concludes (s : St V E) : Lbl V E → Option (Nat × Nat)
  | .visit w false =>
    match s.workers w with
    | .looping k => if (s.iters k).state = .finished then none else (upcoming s k).map fun x => (x.1, x.2.1)
    | _ => none
  | .run w false =>
    match s.workers w with
    | .mapper p i => some (p, i)
    | _ => none
  | .return_ w =>
    match s.workers w with
    | .inside _ p i => some (p, i)
    | _ => none
  | _ => none

/-- The counted value that is destroyed twice in the step. A mapper does nothing to a child
that is settled when its turn comes. -/
def overReleased (c : Env V E) (counted : V → Bool) (s : St V E) (l : Lbl V E) : Option V := do
  let (p, i) ← concludes s l
  let parent ← (s.futs p).outcome
  let (_, k) ← (s.futs i).source
  let early := match l with
    | .return_ _ => false
    | _ => (s.futs i).outcome.isSome
  if early then none else (destroyedTwice k parent (some (c.callable i parent))).filter counted

/-- A step, with the values of which one reference too many was given back. -/
def countingStep (c : Env V E) (counted : V → Bool) : St V E × List V → Lbl V E → Option (St V E × List V) :=
  LTS.recorded (step c) fun s l _ freed => freed ++ (overReleased c counted s l).toList

def counting (c : Env V E) (counted : V → Bool) : LTS (St V E × List V) (Lbl V E) :=
  LTS.ofFn (· = (start, [])) (countingStep c counted)

def Single (c : Env V E) (counted : V → Bool) (x : St V E × List V) (l : Lbl V E) : Prop :=
  overReleased c counted x.1 l = none

instance [DecidableEq V] (c : Env V E) (counted : V → Bool) (x : St V E × List V) (l : Lbl V E) :
    Decidable (Single c counted x l) :=
  inferInstanceAs (Decidable (_ = none))

/-- An outcome whose value or exception nobody has destroyed; `asValue` is the exception as
a value. -/
def Intact (asValue : E → V) (freed : List V) : Outcome V E → Prop
  | .ok v => v ∉ freed
  | .error e => asValue e ∉ freed

theorem counting_inductive (c : Env V E) (counted : V → Bool) :
    (counting c counted).Inductive fun x => Inv c False (fun _ => False) x.1 where
  init x hs := by
    rw [show x = (start, []) from hs]
    exact inv_init rfl
  step _ _ _ h hst := h.step False.elim (LTS.recorded_step hst).1

theorem single_inductive (c : Env V E) (counted : V → Bool) :
    ((counting c counted).restrict (Single c counted)).Inductive fun x => x.2 = [] where
  init _ hs := congrArg Prod.snd hs
  step x l y h hst := by
    obtain ⟨hsingle, hst⟩ := hst
    have hx : overReleased c counted x.1 l = none := hsingle
    rw [(LTS.recorded_step hst).2, h, hx]
    rfl

/-! ## Results -/

/-- **Chains compute the compositional outcome.** A settled future has the outcome that
the recursive definition gives it, its callable was called at most once, and another run
with the same derivations and the same outcomes from outside, attached at whatever
moments, settles the future in the same way if it settles it. If no `finally()` of a rejected
source returns a counted value, what the outcome holds is intact. -/
theorem chain_outcome (c : Env V E) (counted : V → Bool) (asValue : E → V) (s : St V E) (freed : List V)
    (hr : ((counting c counted).restrict (Single c counted)).Reachable (s, freed)) (i : Nat) :
    (∀ o, (s.futs i).outcome = some o → Denotes c s.source s.given i o ∧ Intact asValue freed o) ∧
    (s.futs i).calls ≤ 1 ∧
    ∀ s' freed', (counting c counted).Reachable (s', freed') → s'.source = s.source → s'.given = s.given →
      ∀ o o', (s.futs i).outcome = some o → (s'.futs i).outcome = some o' → o = o' := by
  have h := ((counting_inductive c counted).reachable _ hr.of_restrict).chained
  have hfreed : freed = [] := (single_inductive c counted).reachable _ hr
  refine ⟨fun o ho => ⟨h.denotes i o ho, ?_⟩, h.once i, fun s' freed' hr' hs hg o o' ho ho' => ?_⟩
  · rw [hfreed]
    cases o <;> exact List.not_mem_nil
  · have h' := ((counting_inductive c counted).reachable _ hr').chained.denotes i o' ho'
    dsimp only at h'
    rw [hs, hg] at h'
    exact (h.denotes i o ho).unique h'

/-- The callable of future 1 returns 6, the others throw. -/
def answers : Env Nat Nat := ⟨fun i _ => if i = 1 then .ok 6 else .error 9, fun x e => 100 * x + e, 0⟩

/-- A `catch()` attached before and a `finally()` that throws attached after the root was
rejected. -/
theorem chain_outcome_two :
    ∃ s : St Nat Nat, (s.futs 1).outcome = some (.ok 6) ∧ (s.futs 2).outcome = some (.error 905) ∧
      Denotes answers s.source s.given 2 (.error 905) ∧ (s.futs 2).calls ≤ 1 := by
  obtain ⟨⟨s, freed⟩, hr, h1, h2⟩ := LTS.existsG_from (f := countingStep answers fun _ => true)
    (G := Single answers fun _ => true) (start, [])
    [.create, .derive 0 .catch_, .settle 0 (.error 5), .enter 0, .visit 0 false, .visit 0 false,
      .derive 0 .finally_, .run 1 false]
    (P := fun x => (x.1.futs 1).outcome = some (.ok 6) ∧ (x.1.futs 2).outcome = some (.error 905)) (by decide +kernel)
  have h := chain_outcome _ (fun _ => true) id s freed hr 2
  exact ⟨s, h1, h2, (h.1 _ h2).1, h.2.1⟩

/-- The callables return what they are given, also an exception. -/
def returning : Env Nat Nat where
  callable _ o := match o with
    | .ok v => .ok v
    | .error e => .ok e
  setPrevious x _ := x
  null := 0

/-- **Counterexample.** The callable of a `finally()` returns what it was given, the exception
of its rejected source. The exception is destroyed twice, and the future derived is settled
with it: what is attached to that future later is given an object that was freed. -/
theorem finally_frees_exception :
    ∃ x, (counting returning fun _ => true).Reachable x ∧ (x.1.futs 0).outcome = some (.error 5) ∧
      (x.1.futs 1).outcome = some (.error 5) ∧ ¬Intact id x.2 (.error 5 : Outcome Nat Nat) := by
  obtain ⟨x, hr, h0, h1, hx⟩ := LTS.exists_from (f := countingStep returning fun _ => true) (start, [])
    [.create, .settle 0 (.error 5), .derive 0 .finally_, .run 0 false]
    (P := fun x => (x.1.futs 0).outcome = some (.error 5) ∧ (x.1.futs 1).outcome = some (.error 5) ∧ x.2 = [5])
    (by decide +kernel)
  refine ⟨x, hr, h0, h1, fun hi => hi ?_⟩
  simp [hx]

/-- The callables return or throw what they are given. -/
def passing : Env Nat Nat := ⟨fun _ o => o, fun x _ => x, 0⟩

/-- **Counterexamples.** The callable of future 1 suspends, the second coroutine of the
iterator finishes it, and future 2, derived from future 1, is never settled. The callable
of future 1 throws with nobody to handle it, and its sibling is never visited. The scope of
the derivation is closed, and nobody comes for it. -/
theorem tree_stays_pending : (∃ s, (lts passing).Reachable s ∧
      (∀ w < s.nWorkers, s.workers w = .done) ∧ s.source 1 = some (0, .success) ∧
      s.source 2 = some (1, .success) ∧ (s.futs 1).outcome = some (.ok 7) ∧ (s.futs 2).outcome = none) ∧
    (∃ s, (lts (⟨fun _ _ => .error 9, fun x _ => x, 0⟩ : Env Nat Nat)).Reachable s ∧
      (∀ w < s.nWorkers, s.workers w = .done) ∧ s.source 1 = some (0, .success) ∧
      s.source 2 = some (0, .success) ∧ (s.futs 0).outcome = some (.ok 7) ∧ (s.futs 2).outcome = none) ∧
    (∃ s, (lts passing).Reachable s ∧ s.nWorkers = 0 ∧
      s.source 1 = some (0, .success) ∧ (s.futs 0).outcome = some (.ok 7) ∧ (s.futs 1).outcome = none) := by
  refine ⟨?_, ?_, ?_⟩
  · exact LTS.exists_from (f := step passing) start
      [.create, .derive 0 .success, .derive 1 .success, .settle 0 (.ok 7), .enter 0, .visit 0 true,
        .microtask 0, .enter 1, .visit 1 false, .return_ 0, .visit 0 false] (by decide +kernel)
  · exact LTS.exists_from (f := step (⟨fun _ _ => .error 9, fun x _ => x, 0⟩ : Env Nat Nat)) start
      [.create, .derive 0 .success, .derive 0 .success, .settle 0 (.ok 7), .enter 0, .visit 0 false] (by decide +kernel)
  · exact LTS.exists_from (f := step passing) start
      [.create, .derive 0 .success, .close 0, .settle 0 (.ok 7)] (by decide +kernel)

/-- **A settled future settles its tree.** In every run that is unbroken, when every
coroutine has run to its end, everything derived from a settled future is settled. -/
theorem tree_settles (c : Env V E) (s : St V E) (hr : ((lts c).restrict (Unbroken c)).Reachable s)
    (hq : ∀ w < s.nWorkers, s.workers w = .done) (r i : Nat) (hset : (s.futs r).outcome ≠ none)
    (hd : Descends s r i) : (s.futs i).outcome ≠ none := by
  obtain ⟨hC, h⟩ := (covered_inductive c).reachable s hr
  have h := h trivial
  have hdone : ∀ w, s.workers w = .done := by grind [hC.newWorker]
  have hfin : ∀ k, (s.iters k).state = .finished := by
    intro k
    by_contra hk
    obtain ⟨w, hw⟩ := h.live k hk
    rw [hdone w] at hw
    cases hw
  -- a pending child of a settled future would be with a coroutine or an iterator
  have hchild : ∀ p j k, (s.futs j).source = some (p, k) → (s.futs p).outcome ≠ none →
      (s.futs j).outcome ≠ none := by
    intro p j k hs hp hj
    rcases h.cover p j k hs hp hj with hx | hdue
    · exact hx
    · cases hdue with
      | queued hk _ _ => exact hk (hfin _)
      | next hk _ => exact hk (hfin _)
      | @inside w _ hw => rw [hdone w] at hw; cases hw
      | @mapper w hw => rw [hdone w] at hw; cases hw
  induction hd with
  | child hs => exact hchild _ _ _ hs hset
  | step hs _ ih => exact hchild _ _ _ hs ih

/-- A chain of three whose last callable suspends, and a `catch()` beside it. -/
theorem tree_settles_three : ∃ s : St Nat Nat, (s.futs 0).outcome ≠ none ∧ s.source 1 = some (0, .success) ∧
      s.source 2 = some (1, .success) ∧ (s.futs 2).outcome ≠ none := by
  obtain ⟨s, hr, hq, h0, h1, h2⟩ := LTS.existsG_from (G := Unbroken passing) (f := step passing) start
    [.create, .derive 0 .success, .derive 1 .success, .derive 0 .catch_, .settle 0 (.ok 7), .enter 0,
      .visit 0 false, .visit 0 false, .visit 0 true, .microtask 0, .enter 1, .visit 1 false, .return_ 0,
      .visit 0 false]
    (P := fun s => (∀ w < s.nWorkers, s.workers w = .done) ∧ (s.futs 0).outcome ≠ none ∧
      s.source 1 = some (0, .success) ∧ s.source 2 = some (1, .success)) (by decide +kernel)
  exact ⟨s, h0, h1, h2, tree_settles _ s hr hq 0 2 h0 (.step h2 (.child h1))⟩

end PhpAsync.L2.Future
