import PhpAsync.L2Scope.Steps

/-!
# What an operation writes

The history only grows. An event is written in a state that the operation has come to,
and keeps what was unfinished then (`Wrote`).

* `Acts.log`: whatever an operation adds was written on the way.
* `Acts.books`: finally handlers are started from what is registered, and leave it; a
  closing is written down.
* `run_due`, `closed_written`: the same for whole runs.
-/
namespace PhpAsync.L2.Scopes

open PhpAsync.Core

variable {E : Type}

/-- What an action in the state `s` may write. An awaiter is resumed without an exception
if it was notified without one, or if its error handler returned. -/
inductive Wrote (F L : Nat → Prop) (R : Nat → Callback → Option E → Prop) (s : St E) : Event E → Prop
  | closed {i : Nat} (h : F i) : Wrote F L R s (.closed i (unfinished s i))
  | resumed {a i : Nat} {cb : Callback} {e e' : Option E} (h : R i cb e) (ha : cb.isAwaiter a = true)
      (hnone : e' = none → e = none ∨ cb = .awaiter a true) :
      Wrote F L R s (.resumed a i e' (unfinished s i))
  | notified {i : Nat} {cb : Callback} {e : Option E} (h : R i cb e) : Wrote F L R s (.notified i cb e)
  | started {i : Nat} (h : L i) : Wrote F L R s (.started i (s.scopes i).finallyHandlers)

section Acts

variable {c : Env E} {F L K : Nat → Prop} {R : Nat → Callback → Option E → Prop} {s t : St E}

theorem callback_log {i : Nat} {cb : Callback} {e : Option E} (h : R i cb e) :
    ∃ l, (callback c i e s cb).log = s.log ++ l ∧ ∀ x ∈ l, Wrote F L R s x := by
  obtain ⟨cbs, l, ha, heq⟩ := callback_answer c i e s cb
  refine ⟨.notified i cb e :: l, by rw [heq]; rfl, fun x hx => ?_⟩
  rcases List.mem_cons.1 hx with rfl | hx
  · exact .notified h
  · cases ha with
    | stays => cases hx
    | resumed y ha hnone =>
      rw [List.mem_singleton.1 hx]
      exact .resumed h ha hnone

theorem Act.log (ha : Act c F L K R s t) :
    ∃ l, t.log = s.log ++ l ∧ ∀ x ∈ l, Wrote F L R s x := by
  have hnil : ∀ u : St E, u.log = s.log → ∃ l, u.log = s.log ++ l ∧ ∀ x ∈ l, Wrote F L R s x :=
    fun u hu => ⟨[], by rw [hu, List.append_nil], by simp⟩
  cases ha with
  | mild hm => exact hnil _ hm.log
  | call h => exact callback_log h
  | close h =>
    exact ⟨[_], rfl, fun x hx => by rw [List.mem_singleton.1 hx]; exact .closed h⟩
  | @start i h _ =>
    unfold callFinallyHandlers
    split
    · exact hnil _ rfl
    · exact ⟨[_], rfl, fun x hx => by rw [List.mem_singleton.1 hx]; exact .started h⟩
  | flag | clear | unlink | free => exact hnil _ rfl

/-- **Every event was written on the way.** -/
theorem Acts.log (ha : Acts c F L K R s t) {x : Event E} (hx : x ∈ t.log) :
    x ∈ s.log ∨ ∃ u, Acts c F L K R s u ∧ Wrote F L R u x := by
  induction ha with
  | refl => exact .inl hx
  | @tail u v hab hb ih =>
    obtain ⟨l, hl, hw⟩ := hb.log
    rw [hl] at hx
    rcases List.mem_append.1 hx with hx | hx
    · exact ih hx
    · exact .inr ⟨u, hab, hw x hx⟩

end Acts

/-! ## Finally handlers -/

/-- The handlers that were started for `i`. -/
def startedIn (l : List (Event E)) (i : Nat) : List Nat :=
  l.flatMap fun x =>
    match x with
    | .started j hs => if j = i then hs else []
    | _ => []

theorem startedIn_append (l l' : List (Event E)) (i : Nat) :
    startedIn (l ++ l') i = startedIn l i ++ startedIn l' i := List.flatMap_append

theorem startedIn_nil {l : List (Event E)} (h : ∀ j hs, Event.started j hs ∉ l) (i : Nat) :
    startedIn l i = [] := by
  refine List.flatMap_eq_nil_iff.2 fun x hx => ?_
  cases x with
  | started j hs => exact absurd hx (h j hs)
  | _ => rfl

/-- How often `h` was started for `i`, or still may be. -/
def due (s : St E) (i h : Nat) : Nat :=
  (startedIn s.log i).count h + (s.scopes i).finallyHandlers.count h

variable {i : Nat}

section Balance

variable {c : Env E} {F L K : Nat → Prop} {R : Nat → Callback → Option E → Prop} {s t : St E}

theorem due_le {N M : Nat → Prop} (hg : Grows F N M s t) (hl : t.log = s.log) (i h : Nat) : due t i h ≤ due s i h := by
  unfold due
  rw [hl]
  rcases hg.finals i with hf | hf
  · exact Nat.le_of_eq (by rw [hf])
  · rw [hf]
    exact Nat.le_add_right _ _

theorem due_append (h : Nat) {l : List (Event E)} (hl : t.log = s.log ++ l) (hno : ∀ j hs, Event.started j hs ∉ l)
    (hf : (t.scopes i).finallyHandlers = (s.scopes i).finallyHandlers) : due t i h = due s i h := by
  unfold due
  rw [hl, startedIn_append, startedIn_nil hno, List.append_nil, hf]

/-- The handlers that are taken are written. -/
theorem due_start (hT : Tree s) {j : Nat} (ha : (s.scopes j).alive = true) (i h : Nat) :
    due (callFinallyHandlers s j) i h ≤ due s i h := by
  unfold callFinallyHandlers
  split
  · exact Nat.le_refl _
  · refine Nat.le_trans (due_le (Evolves.taken (F := Never) hT ha _) rfl i h) ?_
    unfold due
    rw [show (takeFinallyHandlers s j).log = s.log ++ [.started j (s.scopes j).finallyHandlers] from rfl,
      startedIn_append]
    by_cases hij : i = j
    · subst hij
      rw [show (takeFinallyHandlers s i).scopes i = _ from setScope_self ..]
      simp [startedIn]
    · rw [show (takeFinallyHandlers s j).scopes i = _ from setScope_ne _ _ _ hij]
      simp [startedIn, Ne.symm hij]

/-- What an operation does to the books: handlers are started from those that were
registered (`new` of them since), and a closing is written down. -/
structure Books (new : Nat → List Nat) (s t : St E) : Prop where
  due : ∀ i h, due t i h ≤ due s i h + (new i).count h
  closed : ∀ i, (t.scopes i).closed = true →
    (s.scopes i).closed = true ∨ ∃ left, Event.closed i left ∈ t.log
  log : s.log ⊆ t.log

abbrev nothing (_ : Nat) : List Nat := []

namespace Books

variable {new : Nat → List Nat} {u : St E}

theorem trans (h : Books nothing s t) (h' : Books nothing t u) : Books nothing s u where
  due i x := Nat.le_trans (h'.due i x) (h.due i x)
  closed i hi := by grind [h'.closed, h.closed, h'.log]
  log := List.Subset.trans h.log h'.log

/-- Neither closings nor starts. -/
theorem grown {N M : Nat → Prop} (h : Grows Never N M s t) (hl : t.log = s.log) : Books nothing s t where
  due := due_le h hl
  closed i hi := .inl ((h.closed i hi).resolve_right id)
  log := by
    rw [hl]
    exact List.Subset.refl _

/-- Scopes and history are as they were. -/
theorem same (hs : t.scopes = s.scopes) (hl : t.log = s.log) : Books nothing s t where
  due i h := by
    unfold Scopes.due
    rw [hs, hl]
    exact Nat.le_add_right _ _
  closed i hi := .inl (hs ▸ hi)
  log := by
    rw [hl]
    exact List.Subset.refl _

end Books

theorem Act.books (ha : Act c F L K R s t) (hT : Tree s) : Books nothing s t := by
  have hlog : s.log ⊆ t.log := by
    obtain ⟨l, hl, -⟩ := ha.log
    rw [hl]
    exact List.subset_append_left _ _
  cases ha with
  | mild hm => exact .grown (N := Never) (M := Never) (.soft hT hm.toSoft) hm.log
  | @call j cb e hR =>
    obtain ⟨l, hl, hw⟩ := callback_log (c := c) (s := s) (F := Never) (L := Never) hR
    have hs := soft_callback c j e s cb
    refine ⟨fun i h => Nat.le_of_eq (due_append h hl (fun j hs hmem => ?_) (hs.scope i).finallyHandlers),
      fun i hi => .inl (by rw [← (hs.scope i).closed]; exact hi), hlog⟩
    cases hw _ hmem with
    | started h => exact h
  | @flag j h ha =>
    exact ⟨due_le (Act.evolves (L := L) (.flag h ha : Act c F L K R s _) hT) rfl, fun i hi => .inl (setScope_field
      (x := { s.scopes j with cancelled := true }) Scope.closed rfl i ▸ hi), hlog⟩
  | @close j =>
    refine ⟨fun i h => Nat.le_of_eq (due_append h (l := [_]) rfl (by simp)
      (setScope_field (x := { s.scopes j with closed := true }) Scope.finallyHandlers rfl i)),
      fun i hi => ?_, hlog⟩
    by_cases hij : i = j
    · subst hij
      exact .inr ⟨_, List.mem_append_right _ (List.mem_singleton.2 rfl)⟩
    · have hsame : (Scopes.close s j).scopes i = s.scopes i := setScope_ne _ _ _ hij
      rw [hsame] at hi
      exact .inl hi
  | start _ ha =>
    have hev : Evolves Never (fun _ => True) s _ := .start hT ha trivial
    exact ⟨due_start hT ha, fun i hi => .inl ((hev.closed i hi).resolve_right id), hlog⟩
  | clear h => exact .grown ((.clear h : Act c Never L K R s _).evolves hT) rfl
  | unlink h => exact .grown ((.unlink h : Act c Never L K R s _).evolves hT) rfl
  | free h hp => exact .grown ((.free h hp : Act c Never L K R s _).evolves hT) rfl

/-- **Operations keep the books.** -/
theorem Acts.books (ha : Acts c F L K R s t) (hT : Tree s) : Books nothing s t := by
  induction ha with
  | refl => exact .same rfl rfl
  | tail hab hb ih => exact ih.trans (hb.books (Acts.tree hab hT))

theorem spawnAndThrow_log (s : St E) (i : Nat) : (spawnAndThrow s i).log = s.log := by
  unfold spawnAndThrow
  split <;> rfl

theorem books_catch {scheduler safely : Bool} {told : Option Owner} {k : Nat} (hT : Tree s)
    (ha : (s.scopes k).alive = true) (fuel : Nat) (e : E) :
    Books nothing s (catch_ c scheduler safely told fuel s k none e).1 :=
  catch_rule (P := fun u _ => Books nothing s u) (F := Books nothing s)
    (fun _ _ _ _ hu => ⟨hu.due, hu.closed, hu.log⟩) (fun _ _ hu => hu)
    (fun u _ p hTu hp _ _ hu => hu.trans (.grown (.spawnAndThrow hTu hp) (spawnAndThrow_log u p)))
    (fun _ _ e hTu hi hu => hu.trans ((acts_pass (c := c) safely hTu hi e).books hTu))
    (fun _ _ e _ hTu hi _ hu => hu.trans ((acts_pass (c := c) safely hTu hi e).books hTu)) fuel hT ha
    (fun _ hj => by cases hj) e (.same rfl rfl)

theorem books_finalize (hT : Tree s) {d : Nat} (hs : (s.coroutines d).scope = some i) (ha : (s.scopes i).alive = true)
    (e : Option E) (scheduler : Bool) : Books nothing s (finalize c s d i e scheduler) := by
  have hends := hT.ends (c := c) hs ha e scheduler
  have hended : Books nothing s (ended s d) := .same rfl rfl
  have hthrown : Books nothing s (thrown c s d i e scheduler) := by
    refine (hended.trans (.grown (grows_finishing hT ha hends.born) (finishing_rest s d i).1)).trans ?_
    cases e with
    | none => exact .same rfl rfl
    | some x => exact books_catch hends.tree hends.alive _ x
  have hremove : Books nothing s (removeCoroutine (thrown c s d i e scheduler) i d) :=
    hthrown.trans (.grown (N := Never) (M := Never) (.removeCoroutine hends.grows.tree i d)
      (removeCoroutine_rest _ i d).2.2.2)
  rw [finalize_eq]
  exact (hremove.trans (hends.acts.books hends.removed)).trans (.same rfl rfl)

theorem step_books {l : Lbl E} (hT : Tree s) (hst : step c s l = some t) :
    Books (registered l) s t := by
  have hweak : ∀ {u}, Books nothing s u → Books (registered l) s u := fun h =>
    ⟨fun i x => Nat.le_trans (h.due i x) (Nat.le_add_right _ _), h.closed, h.log⟩
  cases step_move hst with
  | quiet _ hq =>
    obtain ⟨new, hl, hnew⟩ := hq.log
    refine ⟨fun i h => ?_, fun i hi => .inl (by rw [← hq.closed i]; exact hi), ?_⟩
    · have hno : ∀ j hs, Event.started j hs ∉ new := by
        intro j hs hmem
        obtain ⟨_, _, _, _, hx⟩ := hnew _ hmem
        cases hx
      unfold due
      rw [hl, startedIn_append, startedIn_nil hno, List.append_nil, hq.finals i, List.count_append]
      exact Nat.le_of_eq (Nat.add_assoc _ _ _).symm
    · rw [hl]
      exact List.subset_append_left _ _
  | @newScope parent object ha => exact hweak (.grown (M := Never) (.newScope hT ha object) (by cases parent <;> rfl))
  | spawn ha => exact hweak (.grown (N := Never) (.spawn hT ha) rfl)
  | groupFinally ha => exact hweak (.grown (.startFinally hT ha _) rfl)
  | cancel ha => exact hweak ((acts_cancel _ _ hT ha _).books hT)
  | @cancelCoroutine d safely hd =>
    have hacts : Acts c Never Never Never (fun _ _ _ => True) s (cancelCoroutine c safely s d) :=
      acts_cancelCoroutine safely hd (fun _ => upward_any s) fun _ _ => trivial
    exact hweak (hacts.books hT)
  | destroy ha => exact hweak (Acts.books (acts_destroy (c := c) hT ha) hT)
  | release ha => exact hweak (Acts.books (acts_release (c := c) hT _) hT)
  | finish hs ha _ => exact hweak (books_finalize hT hs ha _ _)
  | @finallyEnd k x e scheduler hx ha =>
    have hT₁ := hT.dropContext k
    have hdrop : Books nothing s (dropContext s k) := .same rfl rfl
    refine hweak (hdrop.trans ?_)
    cases e with
    | none => exact Acts.books (acts_release (c := c) hT₁ x.scope) hT₁
    | some y =>
      have hT₂ := (grows_catch (c := c) hT₁ ha scheduler (s.scopes x.scope).safely (some x.owner) (x.scope + 1) y).tree
      exact (books_catch hT₁ ha _ y).trans (Acts.books (acts_release (c := c) hT₂ x.scope) hT₂)
  | groupErrors ha => exact hweak (books_catch hT ha _ _)

end Balance

/-! ## Whole runs -/

/-- The finally handlers that a run registers at `i`. -/
def registeredIn (ls : List (Lbl E)) (i : Nat) : List Nat := ls.flatMap (registered · i)

theorem run_due {c : Env E} {s t : St E} {ls : List (Lbl E)} (hr : (lts c).Run s ls t) (hT : Tree s)
    (i h : Nat) : due t i h ≤ due s i h + (registeredIn ls i).count h := by
  induction hr with
  | nil => exact Nat.le_add_right _ _
  | @cons s s' s'' l ls hst _ ih =>
    have hone := (step_books hT hst).due i h
    have hrest := ih ((tree_inductive c).step s l s' hT hst)
    have hcount : (registeredIn (l :: ls) i).count h =
        (registered l i).count h + (registeredIn ls i).count h := by
      unfold registeredIn
      rw [List.flatMap_cons, List.count_append]
    omega

/-- A closed scope has been closed. -/
theorem closed_written (c : Env E) : (lts c).Inductive fun s =>
    Tree s ∧ ∀ i, (s.scopes i).closed = true → ∃ left, Event.closed i left ∈ s.log := by
  refine (tree_inductive c).and (fun s hs => ?_) ?_
  · rw [show s = start from hs]
    intro i hi
    cases hi
  · intro s l t hT _ h hst i hi
    have hb := step_books hT hst
    rcases hb.closed i hi with hi | hi
    · obtain ⟨left, hx⟩ := h i hi
      exact ⟨left, hb.log hx⟩
    · exact hi

end PhpAsync.L2.Scopes
