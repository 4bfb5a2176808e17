import PhpAsync.L2Scope.Steps

/-!
# Cancellation reaches everybody

After `scope_catch_or_cancel` in its cancelling mode every unfinished coroutine at or
below the scope is cancelled, holds a deferred cancellation, or is a zombie (`touched`).
The recursion turns back at a scope that is closed, cancelled, or has nothing to wait for
(`SCOPE_IS_COMPLETELY_DONE`), so this is a matter of the history: whatever lies below a
stopped scope has been touched before, provided that nothing is started there later.

**Hypothesis (`Timely`).** No coroutine is started at or below a scope that is closed or
cancelled: not by `spawn`, not by finally handlers, and not to deliver an exception. For finally
handlers of scopes it asks more: a scope that is cancelled or whose object is destroyed has none
below it, and an exception meets none in the trees it passes, whether they would be started or
not.

**Results.**
* `late_coroutine_escapes`: the counterexample.
* `cancel_swept`: one cancellation, by induction on the depth.
* `cancellation_reaches`: under the hypothesis everybody is reached.
-/
namespace PhpAsync.L2.Scopes

open PhpAsync.Core

variable {E : Type}

/-- Cancellation has been applied to everybody at or below `i`. -/
def Swept (s : St E) (i : Nat) : Prop := ∀ d ∈ unfinished s i, (s.coroutines d).touched = true

/-- Everybody below a stopped scope is touched. -/
def Sound (s : St E) : Prop := ∀ i, stopped s i = true → Swept s i

/-! ## What stays swept -/

variable {d i p : Nat}

section Later

variable {F L : Nat → Prop} {s t : St E}

theorem Swept.mono {j : Nat} (hT : Tree s) (h : Swept s i) (hj : Within s.kids i j) : Swept s j := by
  intro d hd
  obtain ⟨k, hk, hmem, hf⟩ := (mem_unfinished hT).1 hd
  exact h d ((mem_unfinished hT).2 ⟨k, hj.trans hk, hmem, hf⟩)

/-- Nobody comes, and nobody is forgotten. -/
theorem Swept.grows {N M : Nat → Prop} (h : Swept s i) (hs : Tree s) (hg : Grows F N M s t)
    (hM : ∀ j, Within t.kids i j → ¬ M j) : Swept t i := fun d hd =>
  have hd' := hg.mem_unfinished hs hM hd
  hd'.2.touched (h d hd'.1)

theorem Swept.later (h : Swept s i) (hs : Tree s) (hev : Evolves F L s t) (hi : i < s.nScopes)
    (hf : ∀ p, Within s.kids i p → L p → (s.scopes p).finallyHandlers = []) : Swept t i :=
  h.grows hs hev fun _ hw hn => Nat.not_lt.2 hn
    ((hev.within_old (fun p hp hN => hN.2 (hf p hp hN.1)) hw).lt hs.forest hi)

theorem Sound.grows {N M : Nat → Prop} (h : Sound s) (hs : Tree s) (hg : Grows Never N M s t)
    (hM : ∀ i j, stopped s i = true → Within t.kids i j → ¬ M j) : Sound t := by
  intro i hi
  have hi' := (hg.stopped hi).resolve_right id
  exact (h i hi').grows hs hg (hM i · hi')

theorem Sound.later (h : Sound s) (hs : Tree s) (hev : Evolves F L s t)
    (hnew : ∀ i, stopped t i = true → F i → Swept t i)
    (hf : ∀ i p, stopped s i = true → Within s.kids i p → L p → (s.scopes p).finallyHandlers = []) :
    Sound t := by
  intro i hi
  rcases hev.stopped hi with hi' | hF
  · exact (h i hi').later hs hev (hs.lt_of_stopped hi') fun p hp hL => hf i p hi' hp hL
  · exact hnew i hi hF

theorem Sound.soft (h : Sound s) (hT : Tree s) (hs : Soft s t) : Sound t :=
  h.grows hT (.soft (N := Never) (M := Never) hT hs) fun _ _ _ _ hn => hn

end Later

/-! ## Coroutines -/

section Coroutines

variable {c : Env E} (safely : Bool) {s : St E}

theorem cancelCoroutine_touched (hd : d < s.nCoroutines) (hf : (s.coroutines d).finished = false) :
    ((cancelCoroutine c safely s d).coroutines d).touched = true := by
  have hset : ((s.setCoroutine d { s.coroutines d with cancelled := true }).coroutines d).touched =
      true := by
    rw [setCoroutine_self]
    rfl
  unfold cancelCoroutine
  rw [if_neg (by rw [hf]; exact Bool.false_ne_true)]
  split
  · exact hset
  · split
    · rw [setCoroutine_self]
      simp [Coroutine.touched]
    · split
      · have hs := soft_markZombie (c := c)
          (s := s.setCoroutine d { s.coroutines d with cancelled := true }) hd
        exact (hs.coroutine d).touched hset
      · exact hset

theorem cancelCoroutine_list (l : List Nat) (hl : ∀ d ∈ l, d < s.nCoroutines) :
    Soft s (l.foldl (cancelCoroutine c safely) s) ∧
    ∀ d ∈ l, (s.coroutines d).finished = false →
      ((l.foldl (cancelCoroutine c safely) s).coroutines d).touched = true := by
  induction l generalizing s with
  | nil => exact ⟨.refl s, fun d hd => by cases hd⟩
  | cons a l ih =>
    have ha := hl a List.mem_cons_self
    have hs := soft_cancelCoroutine (c := c) safely ha
    obtain ⟨hsoft, htouch⟩ := ih (s := cancelCoroutine c safely s a) fun d hd => by
      rw [hs.nCoroutines]
      exact hl d (List.mem_cons_of_mem _ hd)
    refine ⟨hs.trans hsoft, fun d hd hf => ?_⟩
    rcases List.mem_cons.1 hd with rfl | hd
    · exact (hsoft.coroutine d).touched (cancelCoroutine_touched safely ha hf)
    · exact htouch d hd (by rw [(hs.coroutine d).finished]; exact hf)

end Coroutines

/-! ## One cancellation -/

section Cancel

variable {c : Env E} {safely : Bool} {s : St E} {i : Nat}

/-- If the children are swept one by one, the scope is swept. -/
theorem stop_swept {kid : St E → Nat → St E} (hT : Tree s) (ha : (s.scopes i).alive = true) (e : E)
    (hkid : Turns c safely kid) (hbare : Bare s i)
    (hkids : ∀ j ∈ s.kids i, ∀ u, Others c safely s i j s u → Swept (kid u j) j) :
    Swept (stop c safely kid s i e) i := by
  obtain ⟨hacts, -, hQ⟩ := cancelChildren_rule (P := fun _ => True) (Q := fun j u => Swept u j) hT ha
    hkid trivial (fun j hj u hu _ => ⟨trivial, hkids j hj u hu⟩) (by
      intro j hj u v hu huv hsw
      have hevu := hu.evolves hT
      exact hsw.later hevu.tree (huv.evolves hevu.tree)
        (Nat.lt_of_lt_of_le (hT.forest.known i j hj) hevu.nScopes) fun p _ hp => hevu.finals_nil (hbare.dom hT hp))
  have hev := hacts.evolves hT
  have hT₂ := hev.tree
  have hs₃ := soft_cancelCoroutines (c := c) safely hT₂ i
  have hs₄ := hs₃.trans (soft_notify c _ i (some e))
  intro d hd
  -- nobody has come: who is unfinished now was there after the children
  have hd' : d ∈ unfinished (cancelChildren kid (setCancelled s i) i) i := by
    rw [← hs₄.unfinished]
    exact hd
  obtain ⟨j, hw, hmem, hf⟩ := (mem_unfinished hT₂).1 hd'
  cases hw with
  | refl =>
    refine ((soft_notify c _ i (some e)).coroutine d).touched ?_
    exact (cancelCoroutine_list safely _ fun b hb => hT₂.known hb).2 d hmem hf
  | @down _ k _ hk hkj =>
    have hk' : k ∈ s.kids i := by
      rcases hev.kids i k hk with h | ⟨-, hL, hne⟩
      · exact h
      · exact absurd (hbare.dom hT hL) hne
    exact (hs₄.coroutine d).touched (hQ k hk' d ((mem_unfinished hT₂).2 ⟨j, hkj, hmem, hf⟩))

/-- A scope that can be cancelled: its subtree ends at `n`, has no finally handlers, and
whatever lies below a stopped scope in it is touched. -/
structure Ready (n : Nat) (s : St E) (i : Nat) : Prop where
  tree : Tree s
  alive : (s.scopes i).alive = true
  deep : ∀ x, Within s.kids i x → x < n
  bare : Bare s i
  sound : ∀ k, Within s.kids i k → stopped s k = true → Swept s k

theorem Sound.ready (h : Sound s) (hT : Tree s) (ha : (s.scopes i).alive = true) (hbare : Bare s i) :
    Ready s.nScopes s i :=
  ⟨hT, ha, fun _ hx => hx.lt hT.forest (hT.living i ha), hbare, fun k _ hk => h k hk⟩

theorem Ready.turn {n j : Nat} (h : Ready n s i) (hj : j ∈ s.kids i) {u : St E} (hu : Others c safely s i j s u) :
    Ready n u j := by
  have hT := h.tree
  have hev := hu.evolves hT
  obtain ⟨hwithin, hstop, hunf⟩ := aside_keeps hT hj hu
  refine ⟨hev.tree, hu.kid_alive hT hj, fun x hx => h.deep x (.down hj (hwithin x hx)), fun p hp =>
    hev.finals_nil (h.bare p (.down hj (hwithin p hp))), fun k hk hst d hd => ?_⟩
  have hk' := hwithin k hk
  have hd' := hunf k hk' hd
  obtain ⟨x, -, hmem, -⟩ := (mem_unfinished hT).1 hd'
  exact (hev.coroutine d (hT.known hmem)).touched (h.sound k (.down hj hk') (hstop k hk' hst) d hd')

/-- **One cancellation.** What lies below a stopped scope has been touched before; the
rest is touched now. -/
theorem cancel_swept {n : Nat} (fuel : Nat) (h : Ready n s i) (hfuel : n ≤ i + fuel) (e : Option E) :
    Swept (cancel c safely fuel s i e) i := by
  induction fuel generalizing s i e with
  | zero => exact absurd (h.deep i (.refl i)) (Nat.not_lt.2 hfuel)
  | succ fuel ih =>
    have hT := h.tree
    have hacts := acts_cancel (c := c) safely (fuel + 1) hT h.alive e
    by_cases hclosed : (s.scopes i).closed = true
    · have hsame : cancel c safely (fuel + 1) s i e = s := by
        unfold cancel
        rw [if_pos hclosed]
      rw [hsame]
      exact h.sound i (.refl i) (by unfold stopped; rw [hclosed, Bool.true_or])
    · by_cases hdone : isCompletelyDone s i = true
      · -- everybody there stands below a stopped scope
        have hsw : Swept s i := by
          intro d hd
          obtain ⟨j, hw, hmem, hf⟩ := (mem_unfinished hT).1 hd
          obtain ⟨k, hik, hkj, hst⟩ := done_unless_stopped hT hdone hw hmem
          exact h.sound k hik hst d ((mem_unfinished hT).2 ⟨j, hkj, hmem, hf⟩)
        exact hsw.later hT (hacts.evolves hT) (hT.living i h.alive) fun p hp _ => h.bare p hp
      · unfold cancel
        rw [if_neg hclosed, if_neg hdone]
        refine stop_swept hT h.alive _ (turns_cancel safely fuel _) h.bare ?_
        intro j hj u hu
        have hyoung := hT.forest.younger i j hj
        exact ih (h.turn hj hu) (by omega) _

/-- An operation on the subtree of `i` that leaves it swept. -/
theorem Sound.acts {R : Nat → Callback → Option E → Prop} {t : St E} (h : Sound s) (hT : Tree s)
    (hbare : Bare s i) (hacts : Acts c (Dom s i) (Dom s i) Never R s t) (hsw : Swept t i) :
    Sound t := by
  have hev := hacts.evolves hT
  refine h.later hT hev (fun k hk hdom => ?_) fun k p _ _ hL => hbare.dom hT hL
  rcases hdom with hw | hn
  · exact hsw.mono hev.tree ((hacts.holds hT).within hT hw)
  · have hlt := hev.tree.lt_of_stopped hk
    rw [hev.nScopes_eq fun p hp => hbare.dom hT hp] at hlt
    exact absurd hlt (Nat.not_lt.2 hn)

theorem sound_cancel (h : Sound s) (hT : Tree s) (ha : (s.scopes i).alive = true) (hbare : Bare s i)
    (e : Option E) : Sound (cancel c safely (s.nScopes + 1) s i e) ∧
      Swept (cancel c safely (s.nScopes + 1) s i e) i := by
  have hsw : Swept (cancel c safely (s.nScopes + 1) s i e) i :=
    cancel_swept _ (h.ready hT ha hbare) (by omega) e
  exact ⟨h.acts hT hbare (acts_cancel safely _ hT ha e) hsw, hsw⟩

theorem sound_pass (h : Sound s) (hT : Tree s) (ha : (s.scopes i).alive = true) (hbare : Bare s i)
    (e : E) : Sound (pass c safely s i e) := by
  have hr := h.ready hT ha hbare
  refine h.acts hT hbare (acts_pass safely hT ha e) ?_
  refine stop_swept hT ha e (turns_cancel safely _ none) hbare ?_
  intro j hj u hu
  exact cancel_swept _ (hr.turn hj hu) (by omega) _

end Cancel

/-! ## Other operations -/

section Sound

variable {c : Env E} {s t : St E} {i : Nat}

/-- Disposal sets no flags; it may start finally handlers, but not below a stopped scope. -/
theorem Sound.dispose {K : Nat → Prop} {R : Nat → Callback → Option E → Prop} (h : Sound s)
    (hT : Tree s) (hacts : Acts c Never (Dom s i) K R s t)
    (hf : ∀ k p, stopped s k = true → Within s.kids k p → Within s.kids i p →
      (s.scopes p).finallyHandlers = []) : Sound t := by
  refine h.later hT (hacts.evolves hT) (fun _ _ hn => hn.elim) fun k p hk hw hL => ?_
  rcases hL with hi | hn
  · exact hf k p hk hw hi
  · exact (hT.beyond hn).finallyHandlers

theorem sound_destroy (h : Sound s) (hT : Tree s) (ha : (s.scopes i).alive = true)
    (hbare : Bare s i) : Sound (destroy c s i) := by
  have hs := (mild_object s i).toSoft
  have hT₁ := hT.soft hs
  have h₁ := h.soft hT hs
  have hbare₁ : Bare (s.setScope i { s.scopes i with object := false }) i := by
    intro p hp
    rw [hs.kids] at hp
    rw [(hs.scope p).finallyHandlers]
    exact hbare p hp
  rcases destroy_cases c s i with heq | heq <;> rw [heq]
  · exact h₁.dispose hT₁ (acts_tryToDispose (c := c) hT₁ i) fun _ p _ _ hp => hbare₁ p hp
  · exact (sound_cancel h₁ hT₁ (by rw [setScope_self]; exact ha) hbare₁ none).1

/-- An exception that meets no finally handlers, and needs no coroutine of its own. -/
theorem sound_catch (scheduler safely : Bool) (told : Option Owner) {k : Nat} (h : Sound s)
    (hT : Tree s) (ha : (s.scopes k).alive = true) (hbare : ∀ p, Within s.kids p k → Bare s p)
    (hno : scheduler = true ∨ told = none → ∀ p, Within s.kids p k → hasHandler s p = false)
    (fuel : Nat) (e : E) :
    Sound (catch_ c scheduler safely told fuel s k none e).1 ∧
      Bare (catch_ c scheduler safely told fuel s k none e).1 k := by
  have hk := hT.living k ha
  have hbare' : ∀ u j, Rises s k u j → ∀ x, Dom u j x → (u.scopes x).finallyHandlers = [] := by
    intro u j hr x hx
    refine hr.evolves.finals_nil ?_
    rcases hr.tribe hx with ⟨p, hp, hpx⟩ | hn
    · exact hbare p hp x hpx
    · exact (hT.beyond hn).finallyHandlers
  have hpass : ∀ u j e, (u.scopes j).alive = true → Rises s k u j ∧ Sound u → Sound (pass c safely u j e) :=
    fun u j e hj ⟨hr, hu⟩ => sound_pass hu hr.evolves.tree hj (fun x hx => hbare' u j hr x (.inl hx)) e
  have hend : ∀ u j, Rises s k u j → Bare u k := fun u j hr x hx =>
    hbare' u k ⟨hr.evolves, hr.same, .refl k⟩ x (.inl hx)
  refine catch_rule (P := fun u j => Rises s k u j ∧ Sound u) (F := fun u => Sound u ∧ Bare u k)
    (fun u j l _ hu => ⟨hu.1.heard l, hu.2⟩) (fun u j hu => ⟨hu.2, hend u j hu.1⟩) ?_
    (fun u j e _ hj hu => ⟨hpass u j e hj hu, hend _ j (hu.1.pass safely hj e)⟩)
    (fun u j e p _ hj hp hu => ⟨hu.1.next safely hT hk hj hp e, hpass u j e hj hu⟩) fuel hT ha
    (fun _ hj => by cases hj) e ⟨.refl hT k, h⟩
  rintro u j _ _ _ hwhy hh ⟨hr, -⟩
  rw [hr.hasHandler hT hk, hno hwhy j hr.path] at hh
  cases hh

/-- The end of a coroutine, behind the exception. -/
theorem sound_finished (h : Sound s) (hT : Tree s)
    (hf : ∀ k p, stopped s k = true → Within s.kids k p → Within s.kids i p → (s.scopes p).finallyHandlers = []) :
    Sound (leave (notifyCoroutineFinished c s i d) d) := by
  have hg : Grows Never Never Never s (removeCoroutine s i d) := .removeCoroutine hT i d
  have h₂ : Sound (notifyCoroutineFinished c s i d) := by
    refine (h.grows hT hg fun _ _ _ _ hn => hn).dispose hg.tree (acts_afterRemoval (c := c) hg.tree i)
      fun k p hk hkp hip => hg.finals_nil ?_
    exact hf k p ((hg.stopped hk).resolve_right id) (hg.within_old (fun _ _ hn => hn) hkp)
      (hg.within_old (fun _ _ hn => hn) hip)
  -- leaving changes neither who is unfinished nor who is touched
  have hsame : ∀ {α : Type} (f : Coroutine → α), (∀ x o, f { x with scope := o } = f x) → ∀ b,
      f ((leave (notifyCoroutineFinished c s i d) d).coroutines b) =
        f ((notifyCoroutineFinished c s i d).coroutines b) := fun f hf b => setCoroutine_field f (hf _ _) b
  intro k hk b hb
  rw [hsame Coroutine.touched fun _ _ => rfl]
  refine h₂ k hk b ?_
  unfold unfinished at hb ⊢
  simp only [hsame Coroutine.finished fun _ _ => rfl] at hb
  exact hb

theorem sound_finishing (h : Sound s) (hT : Tree s) (ha : (s.scopes i).alive = true) (hd : d < s.nCoroutines)
    (hopen : (s.coroutines d).finallyHandlers = [] ∨ ∀ p, Within s.kids p i → stopped s p = false) :
    Sound (finishing s d i) := by
  intro k hk b hb
  have hk' : stopped s k = true := ((grows_finishing (F := Never) hT ha hd).stopped hk).resolve_right id
  obtain ⟨hb', -, hlike⟩ := unfinished_finishing hT hd ha (hT.lt_of_stopped hk') (hopen.imp_right fun ho hw => by
    rw [ho k hw] at hk'
    cases hk') hb
  exact hlike.touched (h k hk' b hb')

end Sound

/-! ## The hypothesis -/

/-- No scope at or above `i` is closed or cancelled. -/
def Open (s : St E) (i : Nat) : Prop := Above s i fun p => stopped s p = false

/-- Finally handlers that the disposal of `i` may start stand below open scopes only. -/
def EndsWell (s : St E) (i : Nat) : Prop :=
  Below s i fun p => (s.scopes p).finallyHandlers = [] ∨ Open s p

/-- An exception thrown in `i` meets no finally handlers, and needs no coroutine of its own. -/
def ThrowsWell (s : St E) (i : Nat) (spawns : Bool) : Prop :=
  (Above s i fun p => Below s p fun q => (s.scopes q).finallyHandlers = []) ∧
    (spawns = false ∨ Above s i fun p => hasHandler s p = false)

def LeavesWell (s : St E) (i : Nat) (e : Option E) (scheduler : Bool) : Prop :=
  if e.isSome then ThrowsWell s i scheduler else EndsWell s i

def Timely (s : St E) : Lbl E → Prop
  | .spawn i | .groupFinally _ i => Open s i
  | .cancel i _ _ | .destroy i => Below s i fun p => (s.scopes p).finallyHandlers = []
  | .release i => EndsWell s i
  | .finish d e scheduler =>
    match (s.coroutines d).scope with
    | some i => ((s.coroutines d).finallyHandlers = [] ∨ Open s i) ∧ LeavesWell s i e scheduler
    | none => True
  | .finallyEnd k e scheduler =>
    match s.contexts[k]? with
    | some x => LeavesWell s x.scope e scheduler
    | none => True
  | .groupErrors i _ _ => ThrowsWell s i true
  | _ => True

instance (s : St E) (i : Nat) : Decidable (Open s i) :=
  inferInstanceAs (Decidable (Above s i fun p => stopped s p = false))

instance (s : St E) (i : Nat) : Decidable (EndsWell s i) :=
  inferInstanceAs (Decidable (Below s i fun p => (s.scopes p).finallyHandlers = [] ∨ Open s p))

instance (s : St E) (i : Nat) (spawns : Bool) : Decidable (ThrowsWell s i spawns) :=
  inferInstanceAs (Decidable ((Above s i fun p => Below s p fun q =>
    (s.scopes q).finallyHandlers = []) ∧ (spawns = false ∨ Above s i fun p => hasHandler s p = false)))

instance (s : St E) (i : Nat) (e : Option E) (scheduler : Bool) :
    Decidable (LeavesWell s i e scheduler) :=
  inferInstanceAs (Decidable (if e.isSome then ThrowsWell s i scheduler else EndsWell s i))

instance (s : St E) (l : Lbl E) : Decidable (Timely s l) := by
  unfold Timely
  split <;> (try split) <;> infer_instance

section Timely

variable {c : Env E} {s t : St E} {i : Nat}

theorem EndsWell.finals (h : EndsWell s i) (hT : Tree s) (hi : i < s.nScopes) {k : Nat} (hk : stopped s k = true)
    (hkp : Within s.kids k p) (hip : Within s.kids i p) : (s.scopes p).finallyHandlers = [] := by
  rcases h.within hT hip with hf | ho
  · exact hf
  · rw [show stopped s k = false from Above.within hT ho (hip.lt hT.forest hi) hkp] at hk
    cases hk

theorem ThrowsWell.bare {spawns : Bool} (h : ThrowsWell s i spawns) (hT : Tree s) (hi : i < s.nScopes)
    (hp : Within s.kids p i) : Bare s p :=
  fun _ hq => Below.within hT (h.1.within hT hi hp) hq

theorem ThrowsWell.handler {spawns : Bool} (h : ThrowsWell s i spawns) (hT : Tree s) (hi : i < s.nScopes)
    (hsp : spawns = true) (hp : Within s.kids p i) : hasHandler s p = false := by
  rcases h.2 with h' | h'
  · rw [hsp] at h'
    cases h'
  · exact h'.within hT hi hp

theorem sound_quiet {l : Lbl E} (h : Sound s) (hq : Quiet l s t) : Sound t := by
  have hunf : ∀ k, unfinished t k = unfinished s k := by
    grind [hq.kids, hq.nScopes, hq.members, hq.finished, unfinished, St.below, below, St.kids]
  intro k hk d hd
  rw [hunf k] at hd
  refine hq.touched d (h k ?_ d hd)
  unfold stopped at hk ⊢
  rw [← hq.closed k, ← hq.cancelled k]
  exact hk

theorem Open.not_stopped (ho : Open s i) (hT : Tree s) (hi : i < s.nScopes) {k : Nat} (hk : stopped s k = true) :
    ¬ Within s.kids k i := fun hw => by
  rw [show stopped s k = false from Above.within hT ho hi hw] at hk
  cases hk

theorem sound_spawn (h : Sound s) (hT : Tree s) (ha : (s.scopes i).alive = true) (ho : Open s i) :
    Sound (spawn s i) := by
  have hg : Grows Never Never (· = i) s (spawn s i) := .spawn hT ha
  refine h.grows hT hg fun k j hk hw hj => ho.not_stopped hT (hT.living i ha) hk ?_
  exact hj ▸ hg.within_old (fun _ _ hn => hn) hw

theorem sound_startFinally (h : Sound s) (hT : Tree s) (ha : (s.scopes i).alive = true)
    (ho : Open s i) (o : Owner) : Sound (startFinally s o i) := by
  have hi := hT.living i ha
  have hg : Grows Never (· = i) (s.nScopes ≤ ·) s (startFinally s o i) := .startFinally hT ha o
  refine h.grows hT hg fun k j hk hw hn => Nat.not_lt.2 hn ?_
  exact (hg.within_old (fun p hp hpi => ho.not_stopped hT hi hk (hpi ▸ hp)) hw).lt hT.forest (hT.lt_of_stopped hk)

theorem sound_release (h : Sound s) (hT : Tree s)
    (hf : ∀ k p, stopped s k = true → Within s.kids k p → Within s.kids i p →
      (s.scopes p).finallyHandlers = []) : Sound (release c s i) :=
  h.dispose hT (acts_release hT i) hf

theorem sound_finalize (h : Sound s) (hT : Tree s) (hs : (s.coroutines d).scope = some i)
    (ha : (s.scopes i).alive = true) {e : Option E} {scheduler : Bool} (hG : Timely s (.finish d e scheduler)) :
    Sound (finalize c s d i e scheduler) := by
  unfold Timely at hG
  dsimp only at hG
  rw [hs] at hG
  obtain ⟨hopen, hleave⟩ := hG
  have hends := hT.ends (c := c) hs ha e scheduler
  have hi := hends.lt
  have hg := grows_finishing (F := Never) hT ha hends.born
  have h₁ := sound_finishing h hT ha hends.born (hopen.imp_right fun ho p hp => Above.within hT ho hi hp)
  -- new scopes have no finally handlers
  have hfin : ∀ p, (p < s.nScopes → (s.scopes p).finallyHandlers = []) →
      ((finishing s d i).scopes p).finallyHandlers = [] := fun p hp => hg.finals_nil <|
    if hlt : p < s.nScopes then hp hlt else (hT.beyond (Nat.le_of_not_lt hlt)).finallyHandlers
  rw [finalize_eq]
  cases e with
  | none =>
    have hleave' : EndsWell s i := hleave
    refine sound_finished h₁ hends.tree fun k p hk hkp hip => hfin p fun hp => ?_
    exact hleave'.finals hT hi ((hg.stopped hk).resolve_right id) (hg.within hkp hp) (hg.within hip hp)
  | some x =>
    have hthrow : ThrowsWell s i scheduler := hleave
    obtain ⟨h₂, hbare⟩ := sound_catch (c := c) scheduler
      ((finishing s d i).scopes i).safely (some (.coroutine d)) h₁ hends.tree hends.alive
      (fun p hp q hq => hfin q fun hlt => hthrow.bare hT hi (hg.within hp hi) q (hg.within hq hlt))
      (fun hwhy p hp => by
        have hp' := hg.within hp hi
        unfold hasHandler
        rw [finishing_field (fun x => x.handler || x.childHandler) (fun _ _ _ => rfl) hi d
          (Nat.lt_of_le_of_lt (Within.le hT.forest hp') hi)]
        exact hthrow.handler hT hi (hwhy.resolve_right fun hn => by cases hn) hp') (i + 1) x
    exact sound_finished h₂ hends.grows.tree fun _ p _ _ hip => hbare p hip

theorem sound_finallyHandlersDtor (h : Sound s) (hT : Tree s) (x : Context)
    (ha : (s.scopes x.scope).alive = true) {e : Option E} {scheduler : Bool}
    (hG : LeavesWell s x.scope e scheduler) : Sound (finallyHandlersDtor c s x e scheduler) := by
  have hi := hT.living x.scope ha
  cases e with
  | none =>
    have hends : EndsWell s x.scope := hG
    exact sound_release h hT fun k p hk hkp hip => hends.finals hT hi hk hkp hip
  | some y =>
    have hthrow : ThrowsWell s x.scope scheduler := hG
    obtain ⟨h₁, hbare⟩ := sound_catch (c := c) scheduler
      (s.scopes x.scope).safely (some x.owner) h hT ha
      (fun p hp => hthrow.bare hT hi hp)
      (fun hwhy p hp => hthrow.handler hT hi (hwhy.resolve_right fun hn => by cases hn) hp)
      (x.scope + 1) y
    have hT₁ := (grows_catch (c := c) hT ha scheduler (s.scopes x.scope).safely (some x.owner) (x.scope + 1) y).tree
    exact sound_release h₁ hT₁ fun _ p _ _ hip => hbare p hip

end Timely

/-! ## Whole runs -/

theorem sound_inductive (c : Env E) : ((lts c).restrict Timely).Inductive fun s => Tree s ∧ Sound s := by
  refine ((tree_inductive c).restrict Timely).and (fun s hs => ?_) ?_
  · rw [show s = start from hs]
    intro k hk
    cases hk
  · rintro s l t hT - h ⟨hG, hst⟩
    cases step_move hst with
    | quiet _ hq => exact sound_quiet h hq
    | newScope ha => exact h.grows hT (.newScope (M := Never) hT ha _) fun _ _ _ _ hn => hn
    | spawn ha => exact sound_spawn h hT ha hG
    | groupFinally ha => exact sound_startFinally h hT ha hG _
    | cancel ha => exact (sound_cancel h hT ha (fun p hp => Below.within hT hG hp) _).1
    | cancelCoroutine hd => exact h.soft hT (soft_cancelCoroutine _ hd)
    | destroy ha => exact sound_destroy h hT ha fun p hp => Below.within hT hG hp
    | @release i ha =>
      have hends : EndsWell s i := hG
      have hi := hT.living i ha
      exact sound_release h hT fun k p hk hkp hip => hends.finals hT hi hk hkp hip
    | finish hs ha _ => exact sound_finalize h hT hs ha hG
    | @finallyEnd k x e scheduler hx ha =>
      unfold Timely at hG
      dsimp only at hG
      rw [hx] at hG
      exact sound_finallyHandlersDtor (s := dropContext s k) h (hT.dropContext k) x ha hG
    | @groupErrors i e scheduler ha =>
      have hthrow : ThrowsWell s i true := hG
      have hi := hT.living i ha
      exact (sound_catch _ _ _ h hT ha (fun p hp => hthrow.bare hT hi hp)
        (fun _ p hp => hthrow.handler hT hi rfl hp) _ _).1

/-- **Cancellation reaches everybody.** In every timely run, behind a cancellation of `i`
every unfinished coroutine at or below `i` is touched. -/
theorem cancellation_reaches (c : Env E) (s t : St E) (i : Nat) (e : Option E) (safely : Bool)
    (hr : ((lts c).restrict Timely).Reachable s) (hG : Timely s (.cancel i e safely))
    (hst : step c s (.cancel i e safely) = some t) :
    ∀ d ∈ unfinished t i, (t.coroutines d).touched = true := by
  obtain ⟨hT, h⟩ := (sound_inductive c).reachable s hr
  cases step_move hst with
  | quiet hl => cases hl
  | cancel ha => exact (sound_cancel h hT ha (fun p hp => Below.within hT hG hp) e).2

/-- Two scopes, three coroutines: one running, one protected, one a zombie already; the
first cancellation is repeated. -/
theorem cancellation_reaches_twice :
    ∃ s t : St Nat, Timely s (.cancel 0 none true) ∧ step plain s (.cancel 0 none true) = some t ∧
      unfinished t 0 = [0, 1, 2] ∧ ∀ d ∈ unfinished t 0, (t.coroutines d).touched = true := by
  obtain ⟨s, hr, hG, hp⟩ := LTS.exists_of_execG (G := Timely) (show Init (start : St Nat) from rfl)
    (f := step plain)
    [.newScope none true, .newScope (some 0) true, .spawn 0, .spawn 1, .spawn 1, .begin_ 0, .begin_ 1,
      .protect 1 true, .begin_ 2, .switch (some 0), .cancel 0 none true]
    (P := fun s => Timely s (.cancel 0 none true) ∧
      ((step plain s (.cancel 0 none true)).any fun t => unfinished t 0 = [0, 1, 2]) = true)
    (by decide +kernel)
  obtain ⟨t, hst, ht⟩ := (Option.any_eq_true _ _).1 hp
  exact ⟨s, t, hG, hst, of_decide_eq_true ht, cancellation_reaches _ s t 0 none true hr hG hst⟩

/-- **Counterexample.** A coroutine that is spawned into a cancelled scope is not reached
by the next cancellation: the scope counts as completed, and is closed. -/
theorem late_coroutine_escapes :
    ∃ s t, (lts plain).Reachable s ∧ step plain s (.cancel 0 none false) = some t ∧
      1 ∈ unfinished t 0 ∧ (t.coroutines 1).touched = false := by
  exact LTS.exists_step_of_exec (f := step plain) (show Init start from rfl)
    [.newScope none true, .spawn 0, .begin_ 0, .cancel 0 none false, .spawn 0] _ (by decide +kernel)

end PhpAsync.L2.Scopes
