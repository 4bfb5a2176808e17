import PhpAsync.L2Scope.Log

/-!
# Closing and finally handlers

A scope is closed by a cancellation that finds it completely done. The test counts a
scope that is closed or cancelled as done without looking further, so a scope that was
cancelled is closed by the next cancellation whoever is still running in it, and the way
of an exception from a scope to its parent is such a next cancellation.

**Hypothesis (`Drained`).** When a scope is cancelled or its object goes, nobody is
unfinished below a stopped scope in its subtree. When an exception is thrown into a
scope, the same holds beside its way up; and whatever it leaves behind for a parent has
no coroutine but the one that ends, and no finally handlers.

**Results.**
* `closed_while_running`: the counterexamples.
* `cancel_clean`: one cancellation.
* `finalisation_terminal`: under the hypothesis nobody is unfinished when a scope is
  closed; every finally handler is started at most as often as it was registered, and
  this in every run.
-/
namespace PhpAsync.L2.Scopes

open PhpAsync.Core

variable {E : Type}

/-- Nobody was unfinished at the closings between `s` and `t`. -/
def Clean (s t : St E) : Prop :=
  ∀ i left, Event.closed i left ∈ t.log → Event.closed i left ∈ s.log ∨ left = []

theorem Clean.refl (s : St E) : Clean s s := fun _ _ h => .inl h

variable {s t u : St E}

theorem Clean.trans (h : Clean s t) (h' : Clean t u) : Clean s u := by
  intro i left hx
  rcases h' i left hx with hx | hx
  · exact h i left hx
  · exact .inr hx

theorem Clean.of_log (h : t.log = s.log) : Clean s t := fun _ _ hx => .inl (h ▸ hx)

/-- Operations that set no flags close nothing. -/
theorem Acts.clean {c : Env E} {L K : Nat → Prop} {R : Nat → Callback → Option E → Prop} (ha : Acts c Never L K R s t) :
    Clean s t := by
  intro i left hx
  rcases ha.log hx with hx | ⟨u, -, hw⟩
  · exact .inl hx
  · cases hw with
    | closed h => exact h.elim

/-! ## Cancellation -/

section Cancel

variable {c : Env E} {safely : Bool} {s : St E} {i : Nat}

/-- Nobody is unfinished below a stopped scope in the subtree of `i`. -/
def Calm (s : St E) (i : Nat) : Prop :=
  ∀ k, Within s.kids i k → stopped s k = true → unfinished s k = []

theorem stop_clean {kid : St E → Nat → St E} (hT : Tree s) (ha : (s.scopes i).alive = true) (e : E)
    (hkid : Turns c safely kid) (hkids : ∀ j ∈ s.kids i, ∀ u, Others c safely s i j s u → Clean u (kid u j)) :
    Clean s (stop c safely kid s i e) := by
  obtain ⟨hacts, hclean, -⟩ := cancelChildren_rule (P := Clean s) (Q := fun _ _ => True) hT ha hkid
    (.of_log rfl) (fun j hj u hu hP => ⟨hP.trans (hkids j hj u hu), trivial⟩)
    fun _ _ _ _ _ _ _ => trivial
  have h₃ : Acts c Never Never Never (fun _ _ _ => True) (cancelChildren kid (setCancelled s i) i)
      (cancelCoroutines c safely (cancelChildren kid (setCancelled s i) i) i) :=
    acts_cancelCoroutines safely (hacts.tree hT) (fun _ => upward_any _) trivial
  have h₄ : Acts c Never Never Never (fun _ _ _ => True) _ (stop c safely kid s i e) :=
    h₃.trans (acts_notify _ i (some e) fun _ _ => trivial)
  exact hclean.trans h₄.clean

/-- The subtree of a child is as calm at its turn as it was before. -/
theorem Calm.turn {j : Nat} (h : Calm s j) (hT : Tree s) (hj : j ∈ s.kids i)
    (hu : Others c safely s i j s u) : Calm u j := by
  obtain ⟨hwithin, hstop, hunf⟩ := aside_keeps hT hj hu
  intro k hk hst
  have hk' := hwithin k hk
  have hsub := hunf k hk'
  rw [h k hk' (hstop k hk' hst)] at hsub
  exact List.subset_nil.1 hsub

theorem Calm.kid {j : Nat} (h : Calm s i) (hj : j ∈ s.kids i) : Calm s j :=
  fun k hk => h k (.down hj hk)

/-- **One cancellation.** What counts as done is done where stopped scopes are empty. -/
theorem cancel_clean (fuel : Nat) (hT : Tree s) (ha : (s.scopes i).alive = true) (h : Calm s i)
    (e : Option E) : Clean s (cancel c safely fuel s i e) := by
  induction fuel generalizing s i e with
  | zero => exact .refl s
  | succ fuel ih =>
    unfold cancel
    split
    · exact .refl s
    · split
      · rename_i hdone
        have hempty : unfinished s i = [] := by
          refine List.eq_nil_iff_forall_not_mem.2 fun d hd => ?_
          obtain ⟨j, hw, hmem, hf⟩ := (mem_unfinished hT).1 hd
          obtain ⟨k, hik, hkj, hst⟩ := done_unless_stopped hT hdone hw hmem
          have hd' := (mem_unfinished hT).2 ⟨j, hkj, hmem, hf⟩
          rw [h k hik hst] at hd'
          cases hd'
        have hclose : Clean s (close s i) := by
          intro k left hx
          rcases List.mem_append.1 hx with hx | hx
          · exact .inl hx
          · cases List.mem_singleton.1 hx
            exact .inr hempty
        have hstart : Acts c Never (fun _ => True) Never (fun _ _ _ => True) (close s i)
            (callFinallyHandlers (close s i) i) := by
          refine .single (.start trivial ?_)
          show ((s.setScope i _).scopes i).alive = true
          rw [setScope_self]
          exact ha
        exact hclose.trans hstart.clean
      · exact stop_clean hT ha _ (turns_cancel safely fuel _) fun j hj u hu =>
          ih (hu.tree hT) (hu.kid_alive hT hj) ((h.kid hj).turn hT hj hu) _

theorem pass_clean (hT : Tree s) (ha : (s.scopes i).alive = true) (h : ∀ j ∈ s.kids i, Calm s j)
    (e : E) : Clean s (pass c safely s i e) :=
  stop_clean hT ha e (turns_cancel safely _ none) fun j hj _ hu =>
    cancel_clean _ (hu.tree hT) (hu.kid_alive hT hj) ((h j hj).turn hT hj hu) _

theorem clean_destroy (hT : Tree s) (ha : (s.scopes i).alive = true) (h : Calm s i) :
    Clean s (destroy c s i) := by
  have hm := mild_object s i
  have hT₁ := hT.soft hm.toSoft
  refine (Clean.of_log hm.log).trans ?_
  rcases destroy_cases c s i with heq | heq <;> rw [heq]
  · exact (acts_tryToDispose (c := c) hT₁ i).clean
  · refine cancel_clean _ hT₁ (by rw [setScope_self]; exact ha) (fun k hk hst => ?_) none
    rw [hm.toSoft.kids] at hk
    rw [hm.toSoft.stopped] at hst
    rw [hm.toSoft.unfinished]
    exact h k hk hst

end Cancel

/-! ## Exceptions -/

section Catch

variable {c : Env E} {scheduler safely : Bool} {told : Option Owner} {s : St E} {k : Nat}

/-- The ways down from the way up of an exception that is thrown into `k`. -/
def Beside (s : St E) (k q : Nat) : Prop := ∃ p, Within s.kids p k ∧ q ∈ s.kids p

/-- An exception may be thrown into `k`. -/
structure Passes (s : St E) (k : Nat) : Prop where
  calm : ∀ q, Beside s k q → Calm s q
  empty : ∀ q, Beside s k q → Within s.kids q k → unfinished s q = []
  bare : ∀ q, Beside s k q → Within s.kids q k → Bare s q

/-- The exception has come to `i`: nothing is new, and the ways down are calm. -/
structure Ascends (s : St E) (k : Nat) (u : St E) (i : Nat) : Prop where
  rises : Rises s k u i
  still : Grows Any Never Never s u
  clean : Clean s u
  calm : ∀ q, Beside s k q → ∀ r, Within s.kids q r → stopped u r = true → unfinished u r = []

/-- Nothing is new, so every path is old. -/
theorem Ascends.old {i a b : Nat} (h : Ascends s k u i) (hw : Within u.kids a b) : Within s.kids a b :=
  h.still.within_old (fun _ _ hn => hn) hw

theorem Ascends.pass_clean {i : Nat} (h : Ascends s k u i) (ha : (u.scopes i).alive = true) (e : E) :
    Clean s (pass c safely u i e) := by
  refine h.clean.trans (Scopes.pass_clean h.still.tree ha (fun j hj r hr hst => ?_) e)
  have hj' : j ∈ s.kids i := (h.still.kids i j hj).resolve_right fun hn => hn.2
  exact h.calm j ⟨i, h.rises.path, hj'⟩ r (h.old hr) hst

/-- One scope is passed on the way to its parent. -/
theorem Ascends.up {i p : Nat} (h : Ascends s k u i) (hT : Tree s) (hk : k < s.nScopes) (hpass : Passes s k)
    (ha : (u.scopes i).alive = true) (hp : (u.scopes i).parent = some p) (e : E) :
    Ascends s k (pass c safely u i e) p := by
  have hTu := h.still.tree
  have hev := (acts_pass (c := c) safely hTu ha e).evolves hTu
  have hrises : Rises s k (pass c safely u i e) p := h.rises.next safely hT hk ha hp e
  have hparent : (s.scopes i).parent = some p := by
    rw [← (h.rises.same i (h.rises.lt hT hk)).parent]
    exact hp
  have hside : Beside s k i := ⟨p, hrises.path, hT.linked i p hparent⟩
  -- below `i` there are no finally handlers
  have hbare : ∀ x, Dom u i x → (u.scopes x).finallyHandlers = [] := by
    intro x hx
    rcases hx with hw | hn
    · exact h.still.finals_nil (hpass.bare i hside h.rises.path x (h.old hw))
    · exact (hTu.beyond hn).finallyHandlers
  have hnever : Grows Any Never Never u (pass c safely u i e) :=
    (hev.never hbare).mono (fun _ _ => trivial) (fun _ => id) fun _ => id
  have hstill : Grows Any Never Never s (pass c safely u i e) := h.still.trans hnever
  refine ⟨hrises, hstill, h.pass_clean ha e, fun q hq r hr hst => ?_⟩
  refine List.eq_nil_iff_forall_not_mem.2 fun d hd => ?_
  rcases hev.stopped hst with hu | hw | hn
  · have hd' := (hnever.mem_unfinished hTu (fun _ _ hn => hn) hd).1
    rw [h.calm q hq r hr hu] at hd'
    cases hd'
  · obtain ⟨j, hrj, hmem, hf⟩ := (mem_unfinished hT).1 (hstill.mem_unfinished hT (fun _ _ hn => hn) hd).1
    have hd' := (mem_unfinished hT).2 ⟨j, (h.old hw).trans hrj, hmem, hf⟩
    rw [hpass.empty i hside h.rises.path] at hd'
    cases hd'
  · obtain ⟨x, -, hx⟩ := hq
    exact absurd (hr.lt hT.forest (hT.forest.known x q hx)) (Nat.not_lt.2 (Nat.le_trans h.still.nScopes hn))

theorem clean_catch (hT : Tree s) (ha : (s.scopes k).alive = true) (hpass : Passes s k) (fuel : Nat)
    (e : E) : Clean s (catch_ c scheduler safely told fuel s k none e).1 :=
  catch_rule (P := Ascends s k) (F := Clean s)
    (fun _ _ l _ h => ⟨h.rises.heard l, h.still.rest _ _ _ _, h.clean, h.calm⟩) (fun _ _ h => h.clean)
    (fun u _ j _ _ _ _ h => h.clean.trans (.of_log (spawnAndThrow_log u j))) (fun _ _ e _ hi h => h.pass_clean hi e)
    (fun _ _ e _ _ hi hp h => h.up hT (hT.living k ha) hpass hi hp e) fuel hT ha (fun _ hj => by cases hj) e
    ⟨.refl hT k, .refl hT, .refl s, fun q hq r hr hst => hpass.calm q hq r hr hst⟩

end Catch

/-! ## The hypothesis -/

/-- An exception may be thrown into `i` when the coroutines `gone` end. -/
def PassesWell (s : St E) (i : Nat) (gone : List Nat) : Prop :=
  Above s i fun p => ∀ q ∈ s.kids p,
    (Below s q fun r => stopped s r = true → unfinished s r ⊆ gone) ∧
    (i ∈ s.below q → unfinished s q ⊆ gone ∧
      (Below s q fun r => (s.scopes r).finallyHandlers = []) ∧
      ∀ d ∈ gone, (s.coroutines d).finallyHandlers = [])

def Drained (s : St E) : Lbl E → Prop
  | .cancel i _ _ | .destroy i => Below s i fun r => stopped s r = true → unfinished s r = []
  | .finish d (some _) _ =>
    match (s.coroutines d).scope with
    | some i => PassesWell s i [d]
    | none => True
  | .finallyEnd k (some _) _ =>
    match s.contexts[k]? with
    | some x => PassesWell s x.scope []
    | none => True
  | .groupErrors i _ _ => PassesWell s i []
  | _ => True

instance (s : St E) (i : Nat) (gone : List Nat) : Decidable (PassesWell s i gone) :=
  inferInstanceAs (Decidable (Above s i fun p => ∀ q ∈ s.kids p,
    (Below s q fun r => stopped s r = true → unfinished s r ⊆ gone) ∧
    (i ∈ s.below q → unfinished s q ⊆ gone ∧
      (Below s q fun r => (s.scopes r).finallyHandlers = []) ∧
      ∀ d ∈ gone, (s.coroutines d).finallyHandlers = [])))

instance (s : St E) (l : Lbl E) : Decidable (Drained s l) := by
  apply @Lbl.casesOn E (fun l => Decidable (Drained s l)) l <;> intros
  case finish d e _ =>
    exact match e with
      | none => isTrue trivial
      | some _ => by
        dsimp only [Drained]
        exact match (s.coroutines d).scope with
          | some _ => inferInstance
          | none => isTrue trivial
  case finallyEnd k e _ =>
    exact match e with
      | none => isTrue trivial
      | some _ => by
        dsimp only [Drained]
        exact match s.contexts[k]? with
          | some _ => inferInstance
          | none => isTrue trivial
  all_goals dsimp only [Drained]; infer_instance

section Drained

variable {c : Env E} {s : St E} {i : Nat}

theorem PassesWell.passes (h : PassesWell s i []) (hT : Tree s) (hi : i < s.nScopes) : Passes s i where
  calm := by
    rintro q ⟨p, hp, hq⟩ r hr hst
    have hcalm := ((h.within hT hi hp) q hq).1
    exact List.subset_nil.1 (hcalm.within hT hr hst)
  empty := by
    rintro q ⟨p, hp, hq⟩ hqi
    exact List.subset_nil.1 (((h.within hT hi hp) q hq).2 ((mem_belowScope hT).2 hqi)).1
  bare := by
    rintro q ⟨p, hp, hq⟩ hqi r hr
    exact Below.within hT (((h.within hT hi hp) q hq).2 ((mem_belowScope hT).2 hqi)).2.1 hr

/-- The coroutine that ends is gone when its exception is thrown. -/
theorem passes_finishing {d : Nat} (h : PassesWell s i [d]) (hT : Tree s)
    (ha : (s.scopes i).alive = true) (hd : d < s.nCoroutines) : Passes (finishing s d i) i := by
  have hi := hT.living i ha
  have hg := grows_finishing (F := Never) hT ha hd
  -- a way down that leads to an old scope was there before
  have hside : ∀ {q r}, Beside (finishing s d i) i q → Within (finishing s d i).kids q r →
      r < s.nScopes → ∃ p, Within s.kids p i ∧ q ∈ s.kids p ∧ Within s.kids q r := by
    rintro q r ⟨p, hp, hq⟩ hr hlt
    have hr' : Within s.kids q r := hg.within hr hlt
    exact ⟨p, hg.within hp hi, (hg.kids p q hq).resolve_right fun hn =>
      Nat.not_lt.2 hn.1 (Nat.lt_of_le_of_lt (hr'.le hT.forest) hlt), hr'⟩
  have hgone : ∀ {q r p}, Within s.kids p i → q ∈ s.kids p → Within s.kids q r → r < s.nScopes →
      unfinished s r ⊆ [d] → unfinished (finishing s d i) r = [] := by
    intro q r p hp hq hqr hlt hsub
    refine List.eq_nil_iff_forall_not_mem.2 fun b hb => ?_
    have hn : (s.coroutines d).finallyHandlers = [] ∨ ¬ Within s.kids r i := by
      by_cases hri : Within s.kids r i
      · have hqi := (mem_belowScope hT).2 (hqr.trans hri)
        exact .inl ((((h.within hT hi hp) q hq).2 hqi).2.2 d List.mem_cons_self)
      · exact .inr hri
    obtain ⟨hb', hne, -⟩ := unfinished_finishing hT hd ha hlt hn hb
    exact hne (List.mem_singleton.1 (hsub hb'))
  refine ⟨fun q hq r hr hst => ?_, fun q hq hqi => ?_, fun q hq hqi r hr => hg.finals_nil ?_⟩
  · have hst' : stopped s r = true := (hg.stopped hst).resolve_right id
    have hlt := hT.lt_of_stopped hst'
    obtain ⟨p, hp, hq', hr'⟩ := hside hq hr hlt
    exact hgone hp hq' hr' hlt (((h.within hT hi hp) q hq').1.within hT hr' hst')
  · obtain ⟨p, hp, hq', hqi'⟩ := hside hq hqi hi
    have hlt : q < s.nScopes := Nat.lt_of_le_of_lt (hqi'.le hT.forest) hi
    exact hgone hp hq' (.refl q) hlt (((h.within hT hi hp) q hq').2 ((mem_belowScope hT).2 hqi')).1
  · by_cases hlt : r < s.nScopes
    · obtain ⟨p, hp, hq', hqi'⟩ := hside hq hqi hi
      exact Below.within hT (((h.within hT hi hp) q hq').2 ((mem_belowScope hT).2 hqi')).2.1 (hg.within hr hlt)
    · exact (hT.beyond (Nat.le_of_not_lt hlt)).finallyHandlers

theorem clean_finalize {d : Nat} (hT : Tree s) (hs : (s.coroutines d).scope = some i)
    (ha : (s.scopes i).alive = true) {e : Option E} {scheduler : Bool}
    (hG : Drained s (.finish d e scheduler)) : Clean s (finalize c s d i e scheduler) := by
  have hends := hT.ends (c := c) hs ha e scheduler
  have hthrown : Clean s (thrown c s d i e scheduler) := by
    refine (Clean.of_log (finishing_rest s d i).1).trans ?_
    cases e with
    | none => exact .refl _
    | some x =>
      unfold Drained at hG
      dsimp only at hG
      rw [hs] at hG
      exact clean_catch hends.tree hends.alive (passes_finishing hG hT ha hends.born) _ x
  rw [finalize_eq]
  exact (hthrown.trans (.of_log (removeCoroutine_rest _ i d).2.2.2)).trans hends.acts.clean

theorem clean_finallyHandlersDtor (hT : Tree s) (x : Context) (ha : (s.scopes x.scope).alive = true)
    {e : Option E} (scheduler : Bool) (hG : e ≠ none → PassesWell s x.scope []) :
    Clean s (finallyHandlersDtor c s x e scheduler) := by
  cases e with
  | none => exact (acts_release (c := c) hT x.scope).clean
  | some y =>
    have hT₁ := (grows_catch (c := c) hT ha scheduler (s.scopes x.scope).safely (some x.owner) (x.scope + 1) y).tree
    have hpass := (hG (by simp)).passes hT (hT.living x.scope ha)
    exact (clean_catch hT ha hpass _ y).trans (acts_release (c := c) hT₁ x.scope).clean

theorem clean_step {l : Lbl E} (hT : Tree s) (hG : Drained s l) (hst : step c s l = some t) : Clean s t := by
  cases step_move hst with
  | quiet _ hq => grind [hq.log, Drained, Clean]
  | @newScope parent => cases parent <;> exact .of_log rfl
  | spawn => exact .of_log rfl
  | groupFinally => exact .of_log rfl
  | cancel ha => exact cancel_clean _ hT ha (fun k hk => Below.within hT hG hk) _
  | @cancelCoroutine d safely hd =>
    have hacts : Acts c Never Never Never (fun _ _ _ => True) s (cancelCoroutine c safely s d) :=
      acts_cancelCoroutine safely hd (fun _ => upward_any s) fun _ _ => trivial
    exact hacts.clean
  | destroy ha => exact clean_destroy hT ha fun k hk => Below.within hT hG hk
  | release ha => exact (acts_release (c := c) hT _).clean
  | finish hs ha _ => exact clean_finalize hT hs ha hG
  | @finallyEnd k x e scheduler hx ha =>
    refine Clean.trans (.of_log rfl)
      (clean_finallyHandlersDtor (s := dropContext s k) (hT.dropContext k) x ha scheduler fun he => ?_)
    obtain ⟨y, rfl⟩ := Option.ne_none_iff_exists'.1 he
    unfold Drained at hG
    dsimp only at hG
    rw [hx] at hG
    exact hG
  | groupErrors ha => exact clean_catch hT ha (PassesWell.passes hG hT (hT.living _ ha)) _ _

end Drained

/-! ## Whole runs -/

theorem clean_inductive (c : Env E) : ((lts c).restrict Drained).Inductive fun s =>
    Tree s ∧ ∀ i left, Event.closed i left ∈ s.log → left = [] := by
  refine ((tree_inductive c).restrict Drained).and (fun s hs => ?_) ?_
  · rw [show s = start from hs]
    intro i left hx
    cases hx
  · rintro s l t hT - h ⟨hG, hst⟩ i left hx
    rcases clean_step hT hG hst i left hx with hx | hx
    · exact h i left hx
    · exact hx

/-- **Finalisation is terminal.** In every run, each finally handler of a scope is started
at most as often as it was registered; in a drained run nobody was unfinished at or below
a scope when it was closed, and what is closed now was closed in this way. -/
theorem finalisation_terminal (c : Env E) (ls : List (Lbl E)) (s : St E)
    (hr : ((lts c).restrict Drained).Run start ls s) :
    (∀ i left, Event.closed i left ∈ s.log → left = []) ∧
    (∀ i, (s.scopes i).closed = true → Event.closed i [] ∈ s.log) ∧
    ∀ i h, (startedIn s.log i).count h ≤ (registeredIn ls i).count h := by
  have hclean := ((clean_inductive c).reachable s ⟨start, ls, rfl, hr⟩).2
  have hclosed := ((closed_written c).reachable s ⟨start, ls, rfl, hr.of_restrict⟩).2
  refine ⟨hclean, fun i hi => ?_, fun i h => ?_⟩
  · obtain ⟨left, hx⟩ := hclosed i hi
    rw [hclean i left hx] at hx
    exact hx
  · have hdue := run_due hr.of_restrict tree_start i h
    have hzero : due (start : St E) i h = 0 := rfl
    rw [hzero, Nat.zero_add] at hdue
    exact Nat.le_trans (Nat.le_add_right _ _) hdue

/-- A coroutine ends, its scope is closed, and the finally handler is started. -/
theorem finalisation_terminal_once :
    ∃ (ls : List (Lbl Nat)) (s : St Nat), startedIn s.log 0 = [5] ∧ (s.scopes 0).closed = true ∧
      Event.closed 0 [] ∈ s.log ∧ (startedIn s.log 0).count 5 ≤ (registeredIn ls 0).count 5 := by
  have hexec : (LTS.execG Drained (step plain) start
      [.newScope none true, .spawn 0, .finally_ 0 5, .finish 0 none false, .cancel 0 none false]).any
      (fun s => decide (startedIn s.log 0 = [5] ∧ (s.scopes 0).closed = true)) = true := by
    decide +kernel
  obtain ⟨s, hs, hp⟩ := (Option.any_eq_true _ _).1 hexec
  obtain ⟨hstarted, hclosed⟩ := of_decide_eq_true hp
  have h := finalisation_terminal plain _ s (LTS.run_of_execG Drained Init (step plain) _ start s hs)
  exact ⟨_, s, hstarted, hclosed, h.2.1 0 hclosed, h.2.2 0 5⟩

/-- **Counterexamples.** A cancelled scope is closed by the next cancellation, with both
coroutines that are still running in it; and the exception of a coroutine closes its
scope on the way to the parent, with another coroutine that is still running. -/
theorem closed_while_running :
    (∃ s, (lts plain).Reachable s ∧ Event.closed 0 [0, 1] ∈ s.log) ∧
    (∃ s, (lts plain).Reachable s ∧ Event.closed 1 [1] ∈ s.log) := by
  constructor
  · exact LTS.exists_from (f := step plain) start
      [.newScope none true, .spawn 0, .begin_ 0, .spawn 0, .begin_ 1, .cancel 0 none false,
        .cancel 0 none false] (by decide +kernel)
  · exact LTS.exists_from (f := step plain) start
      [.newScope none true, .newScope (some 0) true, .spawn 1, .spawn 1, .spawn 0,
        .finish 0 (some 3) false] (by decide +kernel)

end PhpAsync.L2.Scopes
