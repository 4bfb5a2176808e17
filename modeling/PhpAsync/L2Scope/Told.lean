import PhpAsync.L2Scope.Steps

/-!
# Whom the exception handlers are told

A handler of a scope is called with a coroutine. It is the one that failed, or the one
whose finally handlers threw. The context of finally handlers keeps its owner in a union
that is read as a coroutine, whoever owns it.

**Hypothesis (`Proper`).** When finally handlers have thrown and the iterator over them is
destroyed outside of the scheduler, they belong to a coroutine, or no scope on the way up
has a handler.

**Results.**
* `told_a_scope`: the counterexample.
* `told_a_coroutine`: under the hypothesis every handler is told the coroutine that
  failed, or whose finally handlers threw.
-/
namespace PhpAsync.L2.Scopes

open PhpAsync.Core

variable {E : Type}

/-! ## Calls -/

section Calls

variable {c : Env E} {scheduler safely : Bool} {told : Option Owner} {s : St E} {k : Nat}

/-- The calls on the way up are all told the same, outside of the scheduler and at scopes
that have handlers. -/
structure Tells (scheduler : Bool) (told : Option Owner) (s : St E) (k : Nat) (t : St E) : Prop where
  calls : ∃ l, t.calls = s.calls ++ l ∧ ∀ x ∈ l, scheduler = false ∧ told = some x.told ∧
    ∃ p, Within s.kids p k ∧ ((s.scopes p).handler || (s.scopes p).childHandler) = true
  contexts : ∀ x ∈ t.contexts, x ∈ s.contexts ∨ ∃ i, x.owner = .scope i

theorem Tells.acts {F L K : Nat → Prop} {R : Nat → Callback → Option E → Prop} {t u : St E}
    (h : Tells scheduler told s k t) (ha : Acts c F L K R t u) : Tells scheduler told s k u where
  calls := by
    rw [ha.calls.1]
    exact h.calls
  contexts x hx := by grind [ha.calls, h.contexts]

theorem tells_catch (hT : Tree s) (ha : (s.scopes k).alive = true) (fuel : Nat) (e : E) :
    Tells scheduler told s k (catch_ c scheduler safely told fuel s k none e).1 := by
  have hk := hT.living k ha
  refine catch_rule (P := fun u i => Rises s k u i ∧ Tells scheduler told s k u) (F := Tells scheduler told s k)
    ?_ (fun _ _ h => h.2) ?_ (fun u i e hTu hi h => h.2.acts (acts_pass safely hTu hi e))
    (fun u i e p hTu hi hp h => ⟨h.1.next safely hT hk hi hp e, h.2.acts (acts_pass safely hTu hi e)⟩) fuel hT ha
    (fun _ hj => by cases hj) e ⟨.refl hT k, ⟨[], (List.append_nil _).symm, by simp⟩, fun _ hx => .inl hx⟩
  · rintro u i l hl ⟨hr, hu⟩
    obtain ⟨l₀, heq, hl₀⟩ := hu.calls
    refine ⟨hr.heard l, ⟨l₀ ++ l, ?_, fun x hx => ?_⟩, hu.contexts⟩
    · show u.calls ++ l = _
      rw [heq, List.append_assoc]
    · rcases List.mem_append.1 hx with hx | hx
      · exact hl₀ x hx
      · obtain ⟨hsch, ht, hh⟩ := hl x hx
        exact ⟨hsch, ht, i, hr.path, (hr.hasHandler hT hk).symm.trans hh⟩
  · rintro u i j _ _ _ _ ⟨-, hu⟩
    unfold spawnAndThrow
    split
    · exact ⟨hu.calls, hu.contexts⟩
    · exact ⟨hu.calls, hu.contexts⟩

end Calls

/-! ## Whose exception it is -/

/-- The coroutine that fails in a step, or whose finally handlers threw. -/
def source (s : St E) : Lbl E → Option Nat
  | .finish d _ _ => some d
  | .finallyEnd k _ _ =>
    match s.contexts[k]? with
    | some ⟨.coroutine d, _⟩ => some d
    | _ => none
  | _ => none

/-- See the module doc. -/
def Proper (s : St E) : Lbl E → Prop
  | .finallyEnd k (some _) false =>
    match s.contexts[k]? with
    | some ⟨.coroutine _, _⟩ => True
    | some x => Above s x.scope fun p => hasHandler s p = false
    | none => True
  | _ => True

instance (s : St E) (l : Lbl E) : Decidable (Proper s l) := by
  apply @Lbl.casesOn E (fun l => Decidable (Proper s l)) l <;> intros
  case finallyEnd k e on =>
    exact match e, on with
      | none, _ | some _, true => isTrue trivial
      | some _, false => by
        dsimp only [Proper]
        exact match s.contexts[k]? with
          | some ⟨.coroutine _, _⟩ | none => isTrue trivial
          | some ⟨.scope _, _⟩ | some ⟨.group _, _⟩ => inferInstance
  all_goals dsimp only [Proper]; infer_instance

/-! ## Steps -/

/-- What a step adds to the calls and the contexts. -/
structure Speaks (s : St E) (l : Lbl E) (t : St E) : Prop where
  nCoroutines : s.nCoroutines ≤ t.nCoroutines
  calls : ∃ new, t.calls = s.calls ++ new ∧
    ∀ x ∈ new, ∃ d, source s l = some d ∧ x.told = .coroutine d
  contexts : ∀ x ∈ t.contexts, ∀ d, x.owner = .coroutine d → x ∈ s.contexts ∨ d < t.nCoroutines

section Speaks

variable {c : Env E} {s t : St E} {l : Lbl E}

theorem Speaks.silent (h₁ : s.nCoroutines ≤ t.nCoroutines) (h₂ : t.calls = s.calls)
    (h₃ : ∀ x ∈ t.contexts, x ∈ s.contexts ∨ ∃ i, x.owner = .scope i) : Speaks s l t where
  nCoroutines := h₁
  calls := ⟨[], by rw [h₂, List.append_nil], by simp⟩
  contexts x hx d hd := by grind

theorem Speaks.acts {F L K : Nat → Prop} {R : Nat → Callback → Option E → Prop} (hT : Tree s)
    (h : Acts c F L K R s t) : Speaks s l t :=
  .silent (h.evolves hT).nCoroutines h.calls.1 h.calls.2

/-- Behind an exception thrown in `k`. -/
theorem Speaks.tells {scheduler : Bool} {told : Option Owner} {k : Nat} (h₁ : s.nCoroutines ≤ t.nCoroutines)
    (h : Tells scheduler told s k t)
    (hsrc : scheduler = false → ∀ o, told = some o → (∀ p, Within s.kids p k →
        ((s.scopes p).handler || (s.scopes p).childHandler) = false) ∨
      ∃ d, source s l = some d ∧ o = .coroutine d) : Speaks s l t where
  nCoroutines := h₁
  calls := by grind [h.calls]
  contexts x hx d hd := by grind [h.contexts]

/-- The end of a coroutine: whoever is called is told the coroutine. -/
theorem speaks_finalize (hT : Tree s) {d i : Nat} (hs : (s.coroutines d).scope = some i)
    (ha : (s.scopes i).alive = true) (e : Option E) (scheduler : Bool) :
    Speaks s (.finish d e scheduler) (finalize c s d i e scheduler) := by
  have hends := hT.ends (c := c) hs ha e scheduler
  obtain ⟨-, hcalls, hctx⟩ := finishing_rest s d i
  obtain ⟨-, hcalls', hctx', -⟩ := removeCoroutine_rest (thrown c s d i e scheduler) i d
  have htells : Tells scheduler (some (.coroutine d)) (finishing s d i) i (thrown c s d i e scheduler) := by
    cases e with
    | none => exact ⟨⟨[], (List.append_nil _).symm, by simp⟩, fun _ hx => .inl hx⟩
    | some x => exact tells_catch hends.tree hends.alive _ x
  have hn : s.nCoroutines ≤ (notifyCoroutineFinished c (thrown c s d i e scheduler) i d).nCoroutines :=
    calc s.nCoroutines ≤ (finishing s d i).nCoroutines := (grows_finishing (F := Never) hT ha hends.born).nCoroutines
      _ ≤ (thrown c s d i e scheduler).nCoroutines := hends.grows.nCoroutines
      _ ≤ (removeCoroutine (thrown c s d i e scheduler) i d).nCoroutines :=
        (Grows.removeCoroutine (F := Never) (N := Never) (M := Never) hends.grows.tree i d).nCoroutines
      _ ≤ _ := (hends.acts.evolves hends.removed).nCoroutines
  rw [finalize_eq]
  refine ⟨hn, ?_, fun x hx b hb => ?_⟩
  · obtain ⟨new, heq, hnew⟩ := htells.calls
    refine ⟨new, ?_, fun x hx => ⟨d, rfl, (Option.some.inj (hnew x hx).2.1).symm⟩⟩
    show (notifyCoroutineFinished c (thrown c s d i e scheduler) i d).calls = _
    rw [hends.acts.calls.1, hcalls', heq, hcalls]
  · have hno : ∀ j, x.owner ≠ .scope j := by
      intro j hj
      rw [hj] at hb
      cases hb
    rcases hends.acts.calls.2 x hx with hx | ⟨j, hj⟩
    · rw [hctx'] at hx
      rcases hctx x ((htells.contexts x hx).resolve_right fun ⟨j, hj⟩ => hno j hj) with hx | hx
      · exact .inl hx
      · rw [hx] at hb
        cases hb
        exact .inr (Nat.lt_of_lt_of_le hends.born hn)
    · exact absurd hj (hno j)

theorem speaks_finallyEnd (hT : Tree s) {k : Nat} {x : Context} {e : Option E} {scheduler : Bool}
    (hx : s.contexts[k]? = some x) (ha : (s.scopes x.scope).alive = true)
    (hG : Proper s (.finallyEnd k e scheduler)) :
    Speaks s (.finallyEnd k e scheduler)
      (finallyHandlersDtor c (dropContext s k) x e scheduler) := by
  have hT₁ := hT.dropContext k
  have hi := hT.living x.scope ha
  have hctx : ∀ y ∈ (dropContext s k).contexts, y ∈ s.contexts := fun y hy => List.mem_of_mem_eraseIdx hy
  cases e with
  | none =>
    have hacts := acts_release (c := c) hT₁ x.scope
    exact .silent (Acts.evolves hacts hT₁).nCoroutines (Acts.calls hacts).1
      fun y hy => ((Acts.calls hacts).2 y hy).imp (hctx y) id
  | some v =>
    have ht : Tells scheduler (some x.owner) (dropContext s k) x.scope
        (catch_ c scheduler (s.scopes x.scope).safely (some x.owner) (x.scope + 1) (dropContext s k)
          x.scope none v).1 := tells_catch hT₁ ha _ v
    have hold := grows_catch (c := c) hT₁ ha scheduler (s.scopes x.scope).safely (some x.owner) (x.scope + 1) v
    have hacts := acts_release (c := c) hold.tree x.scope
    have ht' : Tells scheduler (some x.owner) s x.scope
        (finallyHandlersDtor c (dropContext s k) x (some v) scheduler) := by
      have ht₂ := ht.acts hacts
      exact ⟨ht₂.calls, fun y hy => (ht₂.contexts y hy).imp (hctx y) id⟩
    refine .tells (Nat.le_trans hold.nCoroutines (Acts.evolves hacts hold.tree).nCoroutines) ht' ?_
    rintro rfl o ho
    cases ho
    obtain ⟨owner, i⟩ := x
    unfold Proper at hG
    dsimp only at hG
    rw [hx] at hG
    cases owner with
    | coroutine d => exact .inr ⟨d, by simp only [source, hx], rfl⟩
    | scope j => exact .inl fun p hp => hG.within hT hi hp
    | group g => exact .inl fun p hp => hG.within hT hi hp

theorem step_speaks (hT : Tree s) (hG : Proper s l) (hst : step c s l = some t) : Speaks s l t := by
  cases step_move hst with
  | quiet _ hq =>
    exact .silent (Nat.le_of_eq hq.nCoroutines.symm) hq.calls fun x hx => .inl (hq.contexts ▸ hx)
  | @newScope parent object =>
    cases parent with
    | none => exact .silent (Nat.le_refl _) rfl fun _ hx => .inl hx
    | some p => exact .silent (Nat.le_refl _) rfl fun _ hx => .inl hx
  | spawn => exact .silent (Nat.le_succ _) rfl fun _ hx => .inl hx
  | groupFinally =>
    refine ⟨Nat.le_succ _, ⟨[], (List.append_nil _).symm, by simp⟩, fun x hx d hd => ?_⟩
    rcases List.mem_append.1 hx with hx | hx
    · exact .inl hx
    · rw [List.mem_singleton.1 hx] at hd
      cases hd
  | cancel ha => exact .acts hT (acts_cancel _ _ hT ha _)
  | @cancelCoroutine d safely hd =>
    have hs := soft_cancelCoroutine (c := c) safely hd
    exact .silent (Nat.le_of_eq hs.nCoroutines.symm) hs.calls fun x hx => .inl (hs.contexts ▸ hx)
  | destroy ha => exact .acts hT (acts_destroy hT ha)
  | release ha => exact .acts hT (acts_release hT _)
  | finish hs ha => exact speaks_finalize hT hs ha _ _
  | finallyEnd hx ha => exact speaks_finallyEnd hT hx ha hG
  | @groupErrors i e scheduler ha =>
    -- nobody is told: the exception gets a coroutine of its own
    have hold := grows_catch (c := c) hT ha scheduler false none (i + 1) e
    exact .tells hold.nCoroutines (tells_catch hT ha _ _) fun _ o ho => by cases ho

end Speaks

/-! ## Whole runs -/

structure Spoken (s : St E) : Prop where
  tree : Tree s
  calls : ∀ x ∈ s.calls, ∃ d, d < s.nCoroutines ∧ x.told = .coroutine d
  contexts : ∀ x ∈ s.contexts, ∀ d, x.owner = .coroutine d → d < s.nCoroutines

/-- The coroutine of a step is there. -/
theorem Spoken.source_lt {s : St E} (h : Spoken s) {c : Env E} {l : Lbl E} {t : St E} {d : Nat}
    (hst : step c s l = some t) (hd : source s l = some d) : d < s.nCoroutines := by
  cases l with
  | finish b e scheduler =>
    cases hd
    cases step_move hst with
    | quiet hl => cases hl
    | finish hs _ _ => exact h.tree.born hs
  | finallyEnd k e scheduler =>
    unfold source at hd
    dsimp only at hd
    split at hd
    · rename_i b i hx
      cases hd
      exact h.contexts _ (List.mem_of_getElem? hx) d rfl
    · cases hd
  | _ => cases hd

theorem spoken_inductive (c : Env E) : ((lts c).restrict Proper).Inductive Spoken where
  init s hs := by
    rw [show s = start from hs]
    exact ⟨tree_start, by simp [start], by simp [start]⟩
  step s l t h hst := by
    obtain ⟨hG, hst⟩ := hst
    have hsp := step_speaks h.tree hG hst
    refine ⟨(tree_inductive c).step s l t h.tree hst, fun x hx => ?_, fun x hx d hd => ?_⟩
    · obtain ⟨new, heq, hnew⟩ := hsp.calls
      rw [heq] at hx
      rcases List.mem_append.1 hx with hx | hx
      · obtain ⟨d, hd, ht⟩ := h.calls x hx
        exact ⟨d, Nat.lt_of_lt_of_le hd hsp.nCoroutines, ht⟩
      · obtain ⟨d, hd, ht⟩ := hnew x hx
        exact ⟨d, Nat.lt_of_lt_of_le (h.source_lt hst hd) hsp.nCoroutines, ht⟩
    · rcases hsp.contexts x hx d hd with hx | hlt
      · exact Nat.lt_of_lt_of_le (h.contexts x hx d hd) hsp.nCoroutines
      · exact hlt

/-- **Handlers are told a coroutine.** In every proper run each handler was told a
coroutine that is there, and the calls of a step are all told the coroutine that fails in
it, or whose finally handlers threw. -/
theorem told_a_coroutine (c : Env E) (s : St E) (hr : ((lts c).restrict Proper).Reachable s) :
    (∀ x ∈ s.calls, ∃ d, d < s.nCoroutines ∧ x.told = .coroutine d) ∧
    ∀ l t, Proper s l → step c s l = some t →
      ∃ new, t.calls = s.calls ++ new ∧
        ∀ x ∈ new, ∃ d, source s l = some d ∧ x.told = .coroutine d := by
  have h := (spoken_inductive c).reachable s hr
  exact ⟨h.calls, fun l t hG hst => (step_speaks h.tree hG hst).calls⟩

/-- Finally handlers of a coroutine throw, and the handler of its scope is told the
coroutine. -/
theorem told_a_coroutine_once :
    ∃ s : St Nat, s.calls.map (·.told) = [.coroutine 0] ∧
      ∀ x ∈ s.calls, ∃ d, d < s.nCoroutines ∧ x.told = .coroutine d := by
  obtain ⟨s, hr, hp⟩ := LTS.exists_of_execG (G := Proper) (show Init (start : St Nat) from rfl)
    (f := step plain)
    [.newScope none true, .configure 0 true false false false, .spawn 0, .finallyOf 0 5,
      .finish 0 none false, .finallyEnd 0 (some 3) false]
    (P := fun s => s.calls.map (·.told) = [.coroutine 0]) (by decide +kernel)
  exact ⟨s, hp, (told_a_coroutine _ s hr).1⟩

/-- **Counterexample.** The finally handlers of a scope, or of a task group, throw, and
the handler of the scope is told the scope, or the group, for a coroutine. -/
theorem told_a_scope :
    (∃ s, (lts plain).Reachable s ∧ s.calls.map (·.told) = [.scope 0]) ∧
    (∃ s, (lts plain).Reachable s ∧ s.calls.map (·.told) = [.group 7]) := by
  constructor
  · exact LTS.exists_from (f := step plain) start
      [.newScope none true, .configure 0 true false false false, .finally_ 0 5, .cancel 0 none false,
        .finallyEnd 0 (some 3) false] (by decide +kernel)
  · exact LTS.exists_from (f := step plain) start
      [.newScope none true, .configure 0 true false false false, .groupFinally 7 0,
        .finallyEnd 0 (some 3) false] (by decide +kernel)

end PhpAsync.L2.Scopes
