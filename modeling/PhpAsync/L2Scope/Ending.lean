import PhpAsync.L2Scope.Catch

/-!
# The end of a coroutine

`async_coroutine_finalize` in pieces: `finishing` (the flag, the finally handlers of the
coroutine), `thrown` (the exception), the removal from the scope with its notifications
and disposal.

* `unfinished_finishing`: the subtrees of the scopes above lose the coroutine.
* `acts_afterRemoval`: what follows the removal is a sequence of actions.
* `Tree.ends`: the pieces together.
-/
namespace PhpAsync.L2.Scopes

open PhpAsync.Core

variable {E : Type} {c : Env E} {s : St E} {d i : Nat}

/-! ## The flag and the finally handlers -/

/-- What `finalize` does before the exception is thrown into the scope. -/
def finishing (s : St E) (d i : Nat) : St E := callFinallyHandlersOf (setFinished s d) d i

/-- The coroutine has ended, and its finally handlers are taken. -/
def ended (s : St E) (d : Nat) : St E := takeFinallyHandlersOf (setFinished s d) d

theorem ended_self (s : St E) (d : Nat) :
    (ended s d).coroutines d = { s.coroutines d with finished := true, finallyHandlers := [] } := by
  simp [ended, takeFinallyHandlersOf, setFinished]

theorem ended_ne (s : St E) {b : Nat} (hb : b ≠ d) : (ended s d).coroutines b = s.coroutines b := by
  simp [ended, takeFinallyHandlersOf, setFinished, St.setCoroutine, Function.update_of_ne hb]

theorem finishing_eq (s : St E) (d i : Nat) : finishing s d i =
    if (s.coroutines d).finallyHandlers = [] then ended s d else startFinally (ended s d) (.coroutine d) i := by
  have hfin : ((setFinished s d).coroutines d).finallyHandlers = (s.coroutines d).finallyHandlers := by
    simp [setFinished]
  unfold finishing callFinallyHandlersOf
  rw [hfin]
  split
  · rename_i h
    simp [ended, takeFinallyHandlersOf, setFinished, St.setCoroutine, ← h]
  · rfl

theorem Tree.ended (h : Tree s) (hd : d < s.nCoroutines) : Tree (ended s d) := by
  have h₁ : Tree (setFinished s d) :=
    (h.setCoroutine (x := { s.coroutines d with finished := true }) hd fun _ _ => rfl).congr rfl rfl rfl rfl
  exact h₁.setCoroutine hd fun _ _ => rfl

/-- One more scope hangs on `i`, if there are finally handlers. -/
theorem grows_finishing {F : Nat → Prop} (h : Tree s) (ha : (s.scopes i).alive = true) (hd : d < s.nCoroutines) :
    Grows F (fun p => p = i ∧ (s.coroutines d).finallyHandlers ≠ []) (s.nScopes ≤ ·) (ended s d) (finishing s d i) := by
  rw [finishing_eq]
  split
  · exact .refl (h.ended hd)
  · rename_i hne
    exact (Grows.startFinally (h.ended hd) ha _).mono (fun _ => id) (fun _ hp => ⟨hp, hne⟩) fun _ => id

theorem holds_finishing {R : Nat → Callback → Option E → Prop} (hi : i < s.nScopes) (d : Nat) :
    Holds R (ended s d) (finishing s d i) := by
  rw [finishing_eq]
  split
  · exact .refl _
  · exact .startFinally (s := ended s d) hi _

theorem finishing_rest (s : St E) (d i : Nat) : (finishing s d i).log = s.log ∧ (finishing s d i).calls = s.calls ∧
    ∀ x ∈ (finishing s d i).contexts, x ∈ s.contexts ∨ x.owner = .coroutine d := by
  rw [finishing_eq]
  split
  · exact ⟨rfl, rfl, fun _ hx => .inl hx⟩
  · refine ⟨rfl, rfl, fun x hx => ?_⟩
    rcases List.mem_append.1 hx with hx | hx
    · exact .inl hx
    · rw [List.mem_singleton.1 hx]
      exact .inr rfl

/-- Of the old scopes only the one of the coroutine changes, by one more child and one
more reference. -/
theorem finishing_field {α : Type} (f : Scope → α) (hf : ∀ x l n, f { x with scopes := l, refs := n } = f x)
    (hi : i < s.nScopes) (d : Nat) {j : Nat} (hj : j < s.nScopes) :
    f ((finishing s d i).scopes j) = f (s.scopes j) := by
  rw [finishing_eq]
  split
  · rfl
  · by_cases hji : j = i
    · subst hji
      rw [startFinally_self (s := ended s d) _ hi, hf]
      rfl
    · rw [startFinally_other (s := ended s d) _ hji (Nat.ne_of_lt hj)]
      rfl

theorem stopped_finishing (hi : i < s.nScopes) (d : Nat) {j : Nat} (hj : j < s.nScopes) :
    stopped (finishing s d i) j = stopped s j :=
  finishing_field (fun x => x.closed || x.cancelled) (fun _ _ _ => rfl) hi d hj

/-- When a coroutine ends, its subtree loses it, and may get its finally handlers. -/
theorem unfinished_finishing {k b : Nat} (hT : Tree s) (hd : d < s.nCoroutines) (ha : (s.scopes i).alive = true)
    (hk : k < s.nScopes) (hn : (s.coroutines d).finallyHandlers = [] ∨ ¬ Within s.kids k i)
    (hb : b ∈ unfinished (finishing s d i) k) :
    b ∈ unfinished s k ∧ b ≠ d ∧ (s.coroutines b).Like ((finishing s d i).coroutines b) := by
  have hg := grows_finishing (F := Never) hT ha hd
  obtain ⟨hb', hlike⟩ := hg.mem_unfinished (hT.ended hd) (fun j hw hn' => Nat.not_lt.2 hn' (Within.lt hT.forest
    (hg.within_old (fun p hp hN => hn.elim hN.2 fun hno => hno (hN.1 ▸ hp)) hw) hk)) hb
  obtain ⟨j, hw, hmem, hf⟩ := (mem_unfinished (hT.ended hd)).1 hb'
  have hbd : b ≠ d := by
    rintro rfl
    rw [ended_self] at hf
    cases hf
  rw [ended_ne s hbd] at hf hlike
  exact ⟨(mem_unfinished hT).2 ⟨j, hw, hmem, hf⟩, hbd, hlike⟩

/-! ## The exception and the removal -/

/-- What `finalize` does with the exception. -/
def thrown (c : Env E) (s : St E) (d i : Nat) (e : Option E) (scheduler : Bool) : St E :=
  match e with
  | some x =>
    (catch_ c scheduler ((finishing s d i).scopes i).safely (some (.coroutine d)) (i + 1)
      (finishing s d i) i none x).1
  | none => finishing s d i

theorem finalize_eq (e : Option E) (scheduler : Bool) :
    finalize c s d i e scheduler =
      leave (notifyCoroutineFinished c (thrown c s d i e scheduler) i d) d := by
  cases e <;> rfl

/-- The notifications and the disposal behind the removal. -/
theorem acts_afterRemoval (hT : Tree s) (i : Nat) :
    Acts c Never (Dom s i) (Dom s i) (Rel true s i) s
      (tryToDispose c (checkCompletionAndNotify c true (i + 1) s i) i).1 := by
  have h₁ : Acts c Never (Dom s i) (Dom s i) (Rel true s i) s (checkCompletionAndNotify c true (i + 1) s i) :=
    acts_check true (i + 1) s i (upward_of_dom (k := i) hT (.refl hT)) (.inl (.inl (.refl i)))
  have hev : Evolves Never Never s (checkCompletionAndNotify c true (i + 1) s i) := .soft hT (soft_check ..)
  have h₂ : Disposes c s i _ _ := (acts_tryToDispose hev.tree i).disposes hT hev fun _ h => dom_later hev h
  exact h₁.trans (h₂.mono (fun _ h => h) (fun _ h => h) (fun _ h => h) fun _ _ _ ⟨hcb, hw, _⟩ =>
    ⟨hcb, .inl ⟨hw, .inl rfl⟩⟩)

/-- The end of the coroutine `d` of `i`, piece by piece. -/
structure Ends (c : Env E) (s : St E) (d i : Nat) (e : Option E) (scheduler : Bool) : Prop where
  born : d < s.nCoroutines
  lt : i < s.nScopes
  tree : Tree (finishing s d i)
  alive : ((finishing s d i).scopes i).alive = true
  grows : Grows Any Any Any (finishing s d i) (thrown c s d i e scheduler)
  removed : Tree (removeCoroutine (thrown c s d i e scheduler) i d)
  acts : Acts c Never (Dom (removeCoroutine (thrown c s d i e scheduler) i d) i)
    (Dom (removeCoroutine (thrown c s d i e scheduler) i d) i)
    (Rel true (removeCoroutine (thrown c s d i e scheduler) i d) i)
    (removeCoroutine (thrown c s d i e scheduler) i d) (notifyCoroutineFinished c (thrown c s d i e scheduler) i d)

theorem Tree.ends (h : Tree s) (hs : (s.coroutines d).scope = some i) (ha : (s.scopes i).alive = true) (e : Option E)
    (scheduler : Bool) : Ends c s d i e scheduler := by
  have hi := h.living i ha
  have hd := h.born hs
  have hT := (grows_finishing (F := Never) h ha hd).tree
  have ha' : ((finishing s d i).scopes i).alive = true := by
    rw [finishing_field Scope.alive (fun _ _ _ => rfl) hi d hi]
    exact ha
  have hg : Grows Any Any Any (finishing s d i) (thrown c s d i e scheduler) := by
    cases e with
    | none => exact .refl hT
    | some x => exact grows_catch hT ha' _ _ _ _ x
  have hT' := hg.tree.removeCoroutine i d
  exact ⟨hd, hi, hT, ha', hg, hT', acts_afterRemoval hT' i⟩

theorem Tree.finalize (h : Tree s) (ha : (s.scopes i).alive = true) (hs : (s.coroutines d).scope = some i)
    (e : Option E) (scheduler : Bool) : Tree (finalize c s d i e scheduler) := by
  have hends := h.ends (c := c) hs ha e scheduler
  have hg := grows_finishing (F := Never) h ha hends.born
  have hd : d < (finishing s d i).nCoroutines := Nat.lt_of_lt_of_le hends.born hg.nCoroutines
  have hscope : ((thrown c s d i e scheduler).coroutines d).scope = some i := by
    rw [(hends.grows.coroutine d hd).scope, (hg.coroutine d hends.born).scope, ended_self]
    exact hs
  have hd' : d < (Scopes.removeCoroutine (thrown c s d i e scheduler) i d).nCoroutines :=
    Nat.lt_of_lt_of_le (Nat.lt_of_lt_of_le hd hends.grows.nCoroutines)
      (Grows.removeCoroutine (F := Never) (N := Never) (M := Never) hends.grows.tree i d).nCoroutines
  have hev := hends.acts.evolves hends.removed
  rw [finalize_eq]
  refine hev.tree.setCoroutine (Nat.lt_of_lt_of_le hd' hev.nCoroutines) fun j hj => ?_
  rcases hev.members j d hj with hj | ⟨-, hn⟩
  · exact absurd hj (hends.grows.tree.removed hscope j)
  · exact absurd hd' (Nat.not_lt.2 hn)

/-! ## The end of finally handlers, and of an object -/

theorem Tree.dropContext (h : Tree s) (k : Nat) : Tree (dropContext s k) :=
  h.congr rfl rfl rfl rfl

theorem Tree.finallyHandlersDtor (h : Tree s) (x : Context) (ha : (s.scopes x.scope).alive = true)
    (e : Option E) (scheduler : Bool) : Tree (finallyHandlersDtor c s x e scheduler) := by
  cases e with
  | none => exact Acts.tree (acts_release (c := c) h x.scope) h
  | some y =>
    have hT := (grows_catch (c := c) h ha scheduler (s.scopes x.scope).safely (some x.owner) (x.scope + 1) y).tree
    exact Acts.tree (acts_release (c := c) hT x.scope) hT

/-- A scope that could not be disposed of is left as it was. -/
theorem tryToDispose_false {t : St E} (h : tryToDispose c s i = (t, false)) : t = s := by
  unfold tryToDispose at h
  split at h
  · cases h
  · split at h
    · cases h
    · exact (Prod.mk.inj h).1.symm

theorem mild_object (s : St E) (i : Nat) : Mild s (s.setScope i { s.scopes i with object := false }) :=
  .setScope ⟨rfl, rfl, rfl, rfl, rfl, rfl, rfl, rfl, rfl, List.Subset.refl _, rfl⟩ rfl rfl

/-- The object goes, and the scope is disposed of or cancelled. -/
theorem destroy_cases (c : Env E) (s : St E) (i : Nat) :
    destroy c s i = (tryToDispose c (s.setScope i { s.scopes i with object := false }) i).1 ∨
      destroy c s i = cancel c (s.scopes i).safely (s.nScopes + 1)
        (s.setScope i { s.scopes i with object := false }) i none := by
  unfold destroy
  split
  · rename_i t heq
    exact .inl (by rw [heq])
  · rename_i t heq
    rw [tryToDispose_false heq, setScope_self]
    exact .inr rfl

theorem acts_destroy (hT : Tree s) (ha : (s.scopes i).alive = true) :
    Acts c (Dom s i) (Dom s i) (Dom s i)
      (fun x cb e => Rel (s.scopes i).safely s i x cb e ∨ Last s i x cb e) s (destroy c s i) := by
  have hm := mild_object s i
  have hev : Evolves Never Never s (s.setScope i { s.scopes i with object := false }) := .soft hT hm.toSoft
  have hdom : ∀ x, Dom (s.setScope i { s.scopes i with object := false }) i x → Dom s i x :=
    fun _ h => dom_later hev h
  refine .head (.mild hm) ?_
  rcases destroy_cases c s i with heq | heq <;> rw [heq]
  · have hd : Disposes c s i _ _ := (acts_tryToDispose hev.tree i).disposes hT hev hdom
    exact hd.mono (fun x hx => hx.elim) (fun _ h => h) (fun _ h => h) fun _ _ _ h => .inr h
  · refine (acts_cancel _ _ hev.tree ?_ none).mono hdom hdom (fun _ h => h.elim)
      fun _ _ _ h => .inl (rel_later hT hev (hT.living i ha) h)
    rw [setScope_self]
    exact ha

end PhpAsync.L2.Scopes
