import PhpAsync.L2Scope.Log

/-!
# Waiting for a cancelled scope

`Scope::awaitAfterCancellation` subscribes to a scope that is cancelled. The test that
decides about the resumption (`SCOPE_IS_COMPLETELY_DONE`) counts a cancelled scope as
done, so an awaiter without an exception is resumed by the first notification, whoever is
still running in the scope.

**Hypothesis (`Patient`).** A step that may notify a scope with an awaiter does so when
nobody is left in it but the coroutine that ends in the step, and no finally handlers are
to be started there. Of a cancellation that is not safe only awaiters with an error
handler are concerned.

**Results.**
* `resumed_too_early`: the counterexample.
* `await_waits`: under the hypothesis nobody is unfinished when an awaiter is resumed
  without an exception.
-/
namespace PhpAsync.L2.Scopes

open PhpAsync.Core

variable {E : Type}

/-- Nobody was unfinished when awaiters were resumed without an exception. -/
def Prompt (s t : St E) : Prop :=
  ∀ a i left, Event.resumed a i none left ∈ t.log → Event.resumed a i none left ∈ s.log ∨ left = []

theorem Prompt.refl (s : St E) : Prompt s s := fun _ _ _ h => .inl h

variable {F L : Nat → Prop} {a d i : Nat} {cb : Callback} {e : Option E} {scheduler : Bool} {t : St E}

theorem Prompt.trans {s u : St E} (h : Prompt s t) (h' : Prompt t u) : Prompt s u := by
  intro a i left hx
  rcases h' a i left hx with hx | hx
  · exact h a i left hx
  · exact .inr hx

theorem Prompt.of_log {s : St E} (h : t.log = s.log) : Prompt s t := fun _ _ _ hx => .inl (h ▸ hx)

def Callback.awaits : Callback → Bool
  | .awaiter _ _ => true
  | .other _ => false

def Callback.answers : Callback → Bool
  | .awaiter _ handler => handler
  | .other _ => false

/-- Somebody waits for `i`. -/
def awaited (s : St E) (i : Nat) : Bool := (s.scopes i).callbacks.any Callback.awaits

/-- Somebody with an error handler waits for `i`. -/
def answered (s : St E) (i : Nat) : Bool := (s.scopes i).callbacks.any Callback.answers

/-- Nobody is in `i` but `gone`, and nobody comes. -/
def Left (s : St E) (gone : List Nat) (i : Nat) : Prop :=
  unfinished s i ⊆ gone ∧ (Below s i fun r => (s.scopes r).finallyHandlers = []) ∧
    ∀ d ∈ gone, (s.coroutines d).finallyHandlers = []

instance (s : St E) (gone : List Nat) (i : Nat) : Decidable (Left s gone i) :=
  inferInstanceAs (Decidable (unfinished s i ⊆ gone ∧
    (Below s i fun r => (s.scopes r).finallyHandlers = []) ∧
    ∀ d ∈ gone, (s.coroutines d).finallyHandlers = []))

/-! ## Operations -/

section Operations

variable {c : Env E} {F L K F₀ L₀ : Nat → Prop} {R : Nat → Callback → Option E → Prop} {f s t : St E}

/-- Nobody is in `i`, and nobody comes. -/
structure Vacant (s : St E) (i : Nat) : Prop where
  empty : unfinished s i = []
  bare : ∀ p, Within s.kids i p → (s.scopes p).finallyHandlers = []

theorem Left.vacant (h : Left s [] i) (hT : Tree s) : Vacant s i :=
  ⟨List.subset_nil.1 h.1, fun _ hp => h.2.1.within hT hp⟩

/-- Who may be resumed without an exception by a call of `cb` with `e`. -/
def Resumes (cb : Callback) (e : Option E) : Prop :=
  (cb.awaits = true ∧ e = none) ∨ cb.answers = true

/-- **What was vacant is vacant.** The operation from `s` to `t` is part of one that began in
`f`, where every scope in question was vacant. -/
theorem Acts.prompt (hf : Tree f) (hbase : Evolves F₀ L₀ f s) (ha : Acts c F L K R s t)
    (h : ∀ i cb e, R i cb e → Resumes cb e → i < f.nScopes ∧ Vacant f i) : Prompt s t := by
  intro a i left hx
  rcases ha.log hx with hx | ⟨u, hu, hw⟩
  · exact .inl hx
  · cases hw with
    | @resumed _ _ cb e _ hR hcb hnone =>
      have hres : Resumes cb e := by
        rcases hnone rfl with he | he
        · refine .inl ⟨?_, he⟩
          cases cb with
          | awaiter => rfl
          | other => cases hcb
        · rw [he]
          exact .inr rfl
      obtain ⟨hi, hv⟩ := h i cb e hR hres
      have hev : Evolves Any Any f u := (hbase.mono (fun _ _ => trivial) fun _ _ => trivial).trans
        ((hu.evolves hbase.tree).mono (fun _ _ => trivial) fun _ _ => trivial)
      have hsub := hev.unfinished hf hi fun p hp _ => hv.bare p hp
      rw [hv.empty] at hsub
      exact .inr (List.subset_nil.1 hsub)

theorem awaited_of (hcb : cb ∈ (s.scopes i).callbacks) (h : cb.awaits = true) :
    awaited s i = true := List.any_eq_true.2 ⟨cb, hcb, h⟩

theorem answered_of (hcb : cb ∈ (s.scopes i).callbacks) (h : cb.answers = true) :
    answered s i = true := List.any_eq_true.2 ⟨cb, hcb, h⟩

theorem awaits_of_answers (h : cb.answers = true) : cb.awaits = true := by
  cases cb with
  | awaiter => rfl
  | other => cases h

theorem Resumes.awaited (h : Resumes cb e) (hcb : cb ∈ (s.scopes i).callbacks) : awaited s i = true := by
  rcases h with ⟨h, -⟩ | h
  · exact awaited_of hcb h
  · exact awaited_of hcb (awaits_of_answers h)

theorem prompt_cancel {safely : Bool} {k : Nat} (hT : Tree s)
    (ha : Acts c F L K (Rel safely s k) s t)
    (hin : ∀ i, Within s.kids k i → (answered s i = true ∨ (safely = true ∧ awaited s i = true)) →
      Vacant s i)
    (hup : safely = true → ∀ i, Within s.kids i k → awaited s i = true → Vacant s i) : Prompt s t := by
  refine ha.prompt hT (.refl hT : Evolves Never Never s s) fun i cb e hR hres => ?_
  obtain ⟨hcb, hw⟩ := hR
  refine ⟨hT.lt_of_callback hcb, ?_⟩
  rcases hw with ⟨hw, hmode⟩ | ⟨hsafe, -, hw⟩
  · refine hin i hw ?_
    rcases hres with ⟨hwait, he⟩ | hans
    · exact .inr ⟨hmode.resolve_right fun hne => hne he, awaited_of hcb hwait⟩
    · exact .inl (answered_of hcb hans)
  · exact hup hsafe i hw (hres.awaited hcb)

theorem prompt_dispose {k : Nat} (hT : Tree s) (ha : Acts c F L K (Last s k) s t)
    (hin : ∀ i, Within s.kids k i → awaited s i = true → Vacant s i) : Prompt s t := by
  refine ha.prompt hT (.refl hT : Evolves Never Never s s) fun i cb e hR hres => ?_
  exact ⟨hT.lt_of_callback hR.1, hin i hR.2.1 (hres.awaited hR.1)⟩

end Operations

/-! ## What follows an exception -/

section Behind

variable {c : Env E} {f u : St E}

/-- What follows, if either nobody waits near by or the exception got no coroutine. -/
theorem Acts.prompt_after {K F₀ L₀ : Nat → Prop} {R : Nat → Callback → Option E → Prop} {N : Nat → Prop} (hf : Tree f)
    (hu : Tree u) (ha : Acts c F L K R u t) (hnear : ∀ i cb e, R i cb e → cb ∈ (f.scopes i).callbacks ∧ N i)
    (hv : ∀ i, N i → awaited f i = true → Vacant f i) (hcase : (∀ i, N i → awaited f i = false) ∨ Evolves F₀ L₀ f u) :
    Prompt u t := by
  rcases hcase with hno | hev
  · refine ha.prompt hu (.refl hu : Evolves Never Never u u) fun i cb e hR hres => ?_
    obtain ⟨hcb, hN⟩ := hnear i cb e hR
    have := hres.awaited hcb
    rw [hno i hN] at this
    cases this
  · refine ha.prompt hf hev fun i cb e hR hres => ?_
    obtain ⟨hcb, hN⟩ := hnear i cb e hR
    exact ⟨hf.lt_of_callback hcb, hv i hN (hres.awaited hcb)⟩

end Behind

/-! ## Exceptions -/

section Catch

variable {c : Env E} (scheduler safely : Bool) (told : Option Owner) {s : St E} {k : Nat}

/-- The exception gets a coroutine of its own. -/
def Spawns (scheduler : Bool) (told : Option Owner) (s : St E) (k : Nat) : Prop :=
  (scheduler = true ∨ told = none) ∧ ∃ p, Within s.kids p k ∧ hasHandler s p = true

theorem prompt_catch (hT : Tree s) (ha : (s.scopes k).alive = true)
    (hv : ∀ i, Tribe s k i → awaited s i = true → Vacant s i) (fuel : Nat) (e : E) :
    Prompt s (catch_ c scheduler safely told fuel s k none e).1 ∧ (Spawns scheduler told s k ∨
      Evolves (Tribe s k) (Tribe s k) s (catch_ c scheduler safely told fuel s k none e).1) := by
  have hk := hT.living k ha
  -- one scope is passed
  have hpass : ∀ u i e, (u.scopes i).alive = true → Rises s k u i ∧ Prompt s u → Prompt s (pass c safely u i e) := by
    rintro u i e hi ⟨hr, hp⟩
    refine hp.trans ((acts_pass safely hr.evolves.tree hi e).prompt hT hr.evolves fun j cb x hR hres => ?_)
    have hcb := hr.evolves.callbacks j hR.1
    refine ⟨hT.lt_of_callback hcb, hv j ?_ (hres.awaited hcb)⟩
    rcases hR.2 with ⟨hw, -⟩ | ⟨-, -, hw⟩
    · exact hr.tribe (.inl hw)
    · exact .inl ⟨j, Within.trans (hr.evolves.within hw (hr.lt hT hk)) hr.path, .refl j⟩
  exact catch_rule (P := fun u i => Rises s k u i ∧ Prompt s u)
    (F := fun u => Prompt s u ∧ (Spawns scheduler told s k ∨ Evolves (Tribe s k) (Tribe s k) s u))
    (fun u i l _ h => ⟨h.1.heard l, h.2⟩) (fun u i h => ⟨h.2, .inr h.1.evolves⟩)
    (fun u i j _ _ hwhy hh h => ⟨h.2.trans (.of_log (spawnAndThrow_log u j)),
      .inl ⟨hwhy, i, h.1.path, (h.1.hasHandler hT hk).symm.trans hh⟩⟩)
    (fun u i e _ hi h => ⟨hpass u i e hi h, .inr (h.1.pass safely hi e).evolves⟩)
    (fun u i e p _ hi hp h => ⟨h.1.next safely hT hk hi hp e, hpass u i e hi h⟩) fuel hT ha (fun _ hj => by cases hj) e
    ⟨.refl hT k, .refl s⟩

end Catch

/-! ## The hypothesis -/

def CancelsWell (s : St E) (i : Nat) (safely : Bool) : Prop :=
  (Below s i fun p => (answered s p = true ∨ (safely = true ∧ awaited s p = true)) → Left s [] p) ∧
    (safely = true → Above s i fun p => awaited s p = true → Left s [] p)

/-- Whoever is awaited below `i` is left but for `gone`. -/
def LeftBelow (s : St E) (i : Nat) (gone : List Nat) : Prop :=
  Below s i fun p => awaited s p = true → Left s gone p

def LeftAbove (s : St E) (i : Nat) (gone : List Nat) : Prop :=
  Above s i fun p => awaited s p = true → Left s gone p

/-- The same for an exception that is thrown into `i`, which must not get a coroutine of
its own there. -/
def LeftAround (s : St E) (i : Nat) (gone : List Nat) (spawns : Bool) : Prop :=
  Above s i fun p => Below s p fun q => awaited s q = true →
    Left s gone q ∧ (spawns = false ∨ Above s i fun r => hasHandler s r = false)

def Patient (s : St E) : Lbl E → Prop
  | .cancel i _ safely => CancelsWell s i safely
  | .cancelCoroutine d safely =>
    match (s.coroutines d).scope with
    | some i => safely = false ∨ (s.coroutines d).started = false ∨ (s.coroutines d).finished = true ∨
        LeftAbove s i []
    | none => True
  | .destroy i => CancelsWell s i (s.scopes i).safely ∧ LeftBelow s i []
  | .release i => LeftBelow s i []
  | .finish d e scheduler =>
    match (s.coroutines d).scope with
    | some i =>
      if e.isSome then LeftAround s i [d] scheduler else LeftAbove s i [d] ∧ LeftBelow s i [d]
    | none => True
  | .finallyEnd k e scheduler =>
    match s.contexts[k]? with
    | some x => if e.isSome then LeftAround s x.scope [] scheduler else LeftBelow s x.scope []
    | none => True
  | .groupErrors i _ _ => LeftAround s i [] true
  | _ => True

instance (s : St E) (i : Nat) (safely : Bool) : Decidable (CancelsWell s i safely) :=
  inferInstanceAs (Decidable ((Below s i fun p =>
    (answered s p = true ∨ (safely = true ∧ awaited s p = true)) → Left s [] p) ∧
    (safely = true → Above s i fun p => awaited s p = true → Left s [] p)))

instance (s : St E) (i : Nat) (gone : List Nat) : Decidable (LeftBelow s i gone) :=
  inferInstanceAs (Decidable (Below s i fun p => awaited s p = true → Left s gone p))

instance (s : St E) (i : Nat) (gone : List Nat) : Decidable (LeftAbove s i gone) :=
  inferInstanceAs (Decidable (Above s i fun p => awaited s p = true → Left s gone p))

instance (s : St E) (i : Nat) (gone : List Nat) (spawns : Bool) :
    Decidable (LeftAround s i gone spawns) :=
  inferInstanceAs (Decidable (Above s i fun p => Below s p fun q => awaited s q = true →
    Left s gone q ∧ (spawns = false ∨ Above s i fun r => hasHandler s r = false)))

instance (s : St E) (l : Lbl E) : Decidable (Patient s l) := by
  apply @Lbl.casesOn E (fun l => Decidable (Patient s l)) l <;> intros <;> dsimp only [Patient]
  case cancelCoroutine d _ | finish d _ _ =>
    exact match (s.coroutines d).scope with
      | some _ => inferInstance
      | none => inferInstance
  case finallyEnd k _ _ =>
    exact match s.contexts[k]? with
      | some _ => inferInstance
      | none => inferInstance
  all_goals infer_instance

section Patient

variable {c : Env E} {s : St E} {i : Nat}

theorem vacant_finishing (h : Left s [d] a) (hT : Tree s) (ha : (s.scopes i).alive = true) (hd : d < s.nCoroutines)
    (hlt : a < s.nScopes) : Vacant (finishing s d i) a := by
  have hg := grows_finishing (F := Never) hT ha hd
  refine ⟨List.eq_nil_iff_forall_not_mem.2 fun b hb => ?_, fun p hp => hg.finals_nil ?_⟩
  · obtain ⟨hb', hne, -⟩ :=
      unfinished_finishing hT hd ha hlt (.inl (h.2.2 d List.mem_cons_self)) hb
    exact hne (List.mem_singleton.1 (h.1 hb'))
  · by_cases hp' : p < s.nScopes
    · exact h.2.1.within hT (hg.within hp hp')
    · exact (hT.beyond (Nat.le_of_not_lt hp')).finallyHandlers

/-- Who has subscribers had them before. -/
theorem awaited_mono {s : St E} (h : (t.scopes a).callbacks ⊆ (s.scopes a).callbacks)
    (hw : awaited t a = true) : awaited s a = true := by
  obtain ⟨cb, hcb, hx⟩ := List.any_eq_true.1 hw
  exact awaited_of (h hcb) hx

theorem Tree.lt_of_awaited (hT : Tree s) (h : awaited s a = true) : a < s.nScopes := by
  obtain ⟨cb, hcb, -⟩ := List.any_eq_true.1 h
  exact hT.lt_of_callback hcb

/-- Whoever is awaited around is vacant, and then no coroutine is needed. -/
theorem LeftAround.tribe {gone : List Nat} {spawns : Bool} (h : LeftAround s i gone spawns) (hT : Tree s)
    (hi : i < s.nScopes) (ht : Tribe s i a) (hw : awaited s a = true) :
    Left s gone a ∧ (spawns = false ∨ Above s i fun r => hasHandler s r = false) := by
  rcases ht with ⟨p, hp, hpa⟩ | hn
  · exact Below.within hT (h.within hT hi hp) hpa hw
  · exact absurd (hT.lt_of_awaited hw) (Nat.not_lt.2 hn)

theorem LeftAround.unspawned {gone : List Nat} {spawns : Bool} {told : Option Owner} (h : LeftAround s i gone spawns)
    (hT : Tree s) (hi : i < s.nScopes) (hwhy : scheduler = true ∨ told = none → spawns = true)
    (hsp : Spawns scheduler told s i) (ht : Tribe s i a) : awaited s a = false := by
  by_contra hw
  obtain ⟨-, hno⟩ := h.tribe hT hi ht (by simpa using hw)
  obtain ⟨hsp, p, hp, hh⟩ := hsp
  rcases hno with hno | hno
  · rw [hwhy hsp] at hno
    cases hno
  · rw [show hasHandler s p = false from hno.within hT hi hp] at hh
    cases hh

theorem prompt_finalize (hT : Tree s) (hs : (s.coroutines d).scope = some i) (ha : (s.scopes i).alive = true)
    (hG : Patient s (.finish d e scheduler)) : Prompt s (finalize c s d i e scheduler) := by
  unfold Patient at hG
  dsimp only at hG
  rw [hs] at hG
  have hends := hT.ends (c := c) hs ha e scheduler
  have hi := hends.lt
  have hg := grows_finishing (F := Never) hT ha hends.born
  have hlog : Prompt s (finishing s d i) := .of_log (finishing_rest s d i).1
  -- who is awaited was awaited before the coroutine ended
  have hold : ∀ {a}, awaited (finishing s d i) a = true → awaited s a = true ∧ a < s.nScopes := fun h =>
    have h' := awaited_mono (hg.callbacks _) h
    ⟨h', hT.lt_of_awaited h'⟩
  -- `N` are the scopes near by
  have hafter : ∀ N : Nat → Prop,
      (∀ a, a < s.nScopes → Within (finishing s d i).kids i a ∨ Within (finishing s d i).kids a i → N a) →
      (∀ a, N a → awaited (finishing s d i) a = true → Vacant (finishing s d i) a) →
      ((∀ a, N a → awaited (finishing s d i) a = false) ∨
        Evolves Any Any (finishing s d i) (thrown c s d i e scheduler)) →
      Prompt (thrown c s d i e scheduler) (finalize c s d i e scheduler) := by
    intro N hN hv hcase
    have hr : Evolves Any Any (thrown c s d i e scheduler) (removeCoroutine (thrown c s d i e scheduler) i d) :=
      .removeCoroutine hends.grows.tree i d
    have hw := hends.grows.trans hr.any
    rw [finalize_eq]
    refine Prompt.trans (.of_log (removeCoroutine_rest _ i d).2.2.2) (.trans (hends.acts.prompt_after (N := N)
      hends.tree hends.removed (fun a cb x hR => ?_) hv (hcase.imp_right fun hev => hev.trans hr)) (.of_log rfl))
    have hcb := hw.callbacks a hR.1
    have hlt := hT.lt_of_callback (hg.callbacks a hcb)
    refine ⟨hcb, hN a hlt ?_⟩
    rcases hR.2 with ⟨hin, -⟩ | ⟨-, -, hup⟩
    · exact .inl (hw.within hin (Nat.lt_of_lt_of_le hlt hg.nScopes))
    · exact .inr (hw.within hup (Nat.lt_of_lt_of_le hi hg.nScopes))
  cases e with
  | none =>
    have hleft : LeftAbove s i [d] ∧ LeftBelow s i [d] := hG
    refine hlog.trans (hafter (fun a => Within s.kids i a ∨ Within s.kids a i)
      (fun a hlt hnear => hnear.imp (hg.within · hlt) (hg.within · hi)) (fun a hN hw => ?_) (.inr (.refl hends.tree)))
    obtain ⟨hw', hlt⟩ := hold hw
    refine vacant_finishing ?_ hT ha hends.born hlt
    rcases hN with hin | hup
    · exact Below.within hT hleft.2 hin hw'
    · exact Above.within hT hleft.1 hi hup hw'
  | some x =>
    have haround : LeftAround s i [d] scheduler := hG
    have htribe : ∀ {a}, a < s.nScopes → Tribe (finishing s d i) i a → Tribe s i a := fun hlt ht =>
      ht.imp (fun ⟨p, hp, hpa⟩ => ⟨p, hg.within hp hi, hg.within hpa hlt⟩) (Nat.le_trans hg.nScopes)
    have hv : ∀ a, Tribe (finishing s d i) i a → awaited (finishing s d i) a = true →
        Vacant (finishing s d i) a := by
      intro a ht hw
      obtain ⟨hw', hlt⟩ := hold hw
      exact vacant_finishing (haround.tribe hT hi (htribe hlt ht) hw').1 hT ha hends.born hlt
    obtain ⟨hprompt, hcase⟩ := prompt_catch (c := c) scheduler
      ((finishing s d i).scopes i).safely (some (.coroutine d)) hends.tree hends.alive hv (i + 1) x
    refine (hlog.trans hprompt).trans (hafter (Tribe (finishing s d i) i) (fun a _ hnear => ?_) hv ?_)
    · rcases hnear with hin | hup
      · exact .inl ⟨i, .refl i, hin⟩
      · exact .inl ⟨a, hup, .refl a⟩
    · refine hcase.imp (fun ⟨hwhy, p, hp, hh⟩ a ht => Bool.eq_false_iff.2 fun hw => ?_) fun hev =>
        hev.mono (fun _ _ => trivial) fun _ _ => trivial
      obtain ⟨hw', hlt⟩ := hold hw
      have hp' := hg.within hp hi
      unfold hasHandler at hh
      rw [finishing_field (fun x => x.handler || x.childHandler) (fun _ _ _ => rfl) hi d
        (Nat.lt_of_le_of_lt (Within.le hT.forest hp') hi)] at hh
      rw [haround.unspawned hT hi (fun h => h.resolve_right fun hn => by cases hn) ⟨hwhy, p, hp', hh⟩
        (htribe hlt ht)] at hw'
      cases hw'

theorem prompt_finallyHandlersDtor (hT : Tree s) (x : Context) (ha : (s.scopes x.scope).alive = true)
    (hG : if e.isSome then LeftAround s x.scope [] scheduler else LeftBelow s x.scope []) :
    Prompt s (finallyHandlersDtor c s x e scheduler) := by
  have hi := hT.living x.scope ha
  cases e with
  | none =>
    have hleft : LeftBelow s x.scope [] := hG
    exact prompt_dispose hT (acts_release (c := c) hT x.scope) fun a hin hw =>
      (Below.within hT hleft hin hw).vacant hT
  | some y =>
    have haround : LeftAround s x.scope [] scheduler := hG
    have hv : ∀ a, Tribe s x.scope a → awaited s a = true → Vacant s a := fun a ht hw =>
      (haround.tribe hT hi ht hw).1.vacant hT
    obtain ⟨hprompt, hcase⟩ := prompt_catch (c := c) scheduler
      (s.scopes x.scope).safely (some x.owner) hT ha hv (x.scope + 1) y
    have hg := grows_catch (c := c) hT ha scheduler (s.scopes x.scope).safely (some x.owner) (x.scope + 1) y
    have hcase' := hcase.imp_left fun hsp a (ht : Tribe s x.scope a) => haround.unspawned hT hi
      (fun h => h.resolve_right fun hn => by cases hn) hsp ht
    refine hprompt.trans (Acts.prompt_after (N := Tribe s x.scope) hT hg.tree
      (acts_release (c := c) hg.tree x.scope) (fun a cb v hR => ?_) hv hcase')
    obtain ⟨hcb, hin, -⟩ := hR
    have hcb' := hg.callbacks a hcb
    exact ⟨hcb', .inl ⟨x.scope, .refl _, hg.within hin (hT.lt_of_callback hcb')⟩⟩

theorem prompt_cancelCoroutine {safely : Bool} (hT : Tree s) (hd : d < s.nCoroutines)
    (hG : Patient s (.cancelCoroutine d safely)) : Prompt s (cancelCoroutine c safely s d) := by
  have hquiet : safely = false ∨ (s.coroutines d).started = false ∨ (s.coroutines d).finished = true →
      (cancelCoroutine c safely s d).log = s.log := by
    intro hwhy
    unfold cancelCoroutine
    dsimp only
    split
    · rfl
    · rename_i hf
      split
      · rfl
      · split
        · rfl
        · split
          · rename_i hmark
            obtain ⟨hst, hsafe⟩ := Bool.and_eq_true_iff.1 hmark
            rcases hwhy with h | h | h
            · rw [h] at hsafe
              cases hsafe
            · rw [h] at hst
              cases hst
            · exact absurd h hf
          · rfl
  unfold Patient at hG
  dsimp only at hG
  cases hscope : (s.coroutines d).scope with
  | none =>
    have hacts : Acts c Never Never Never (fun _ _ _ => False) s (cancelCoroutine c safely s d) :=
      acts_cancelCoroutine (Q := Never) safely hd (fun _ => ⟨fun _ _ h => h.elim, fun _ h => h.elim⟩)
        fun i hi => by
          rw [hscope] at hi
          cases hi
    exact hacts.prompt hT (.refl hT : Evolves Never Never s s) fun _ _ _ h => h.elim
  | some i =>
    rw [hscope] at hG
    by_cases hwhy : safely = false ∨ (s.coroutines d).started = false ∨ (s.coroutines d).finished = true
    · exact .of_log (hquiet hwhy)
    · have hleft : LeftAbove s i [] := by
        rcases hG with h | h | h | h
        · exact absurd (.inl h) hwhy
        · exact absurd (.inr (.inl h)) hwhy
        · exact absurd (.inr (.inr h)) hwhy
        · exact h
      -- the notification goes up from the scope of the coroutine
      have hup : Upward (fun j => Within s.kids j i)
          (fun j cb _ => cb ∈ (s.scopes j).callbacks ∧ Within s.kids j i) s :=
        ⟨fun j p hj hp => .down (hT.linked j p hp) hj, fun j hj cb hcb => ⟨hcb, hj⟩⟩
      have hacts : Acts c Never Never Never _ s (cancelCoroutine c safely s d) :=
        acts_cancelCoroutine safely hd (fun _ => hup) fun j hj => by
          rw [hscope] at hj
          cases hj
          exact .refl i
      by_cases hi : i < s.nScopes
      · exact hacts.prompt hT (.refl hT : Evolves Never Never s s) fun a cb e hR hres =>
          ⟨hT.lt_of_callback hR.1,
            (Above.within hT hleft hi hR.2 (hres.awaited hR.1)).vacant hT⟩
      · refine hacts.prompt hT (.refl hT : Evolves Never Never s s) fun a cb e hR _ => ?_
        have ha := hT.lt_of_callback hR.1
        exact absurd (hR.2.lt hT.forest ha) hi

theorem prompt_step {l : Lbl E} (hT : Tree s) (hG : Patient s l) (hst : step c s l = some t) : Prompt s t := by
  cases step_move hst with
  | quiet _ hq => grind [hq.log, Patient, Prompt]
  | @newScope parent => cases parent <;> exact .of_log rfl
  | spawn => exact .of_log rfl
  | groupFinally => exact .of_log rfl
  | cancel ha =>
    obtain ⟨hin, hup⟩ := hG
    exact prompt_cancel hT (acts_cancel _ _ hT ha _) (fun a ha hw => (hin.within hT ha hw).vacant hT)
      fun hsafe a hup' hw => ((hup hsafe).within hT (hT.living _ ha) hup' hw).vacant hT
  | cancelCoroutine hd => exact prompt_cancelCoroutine hT hd hG
  | @destroy i ha =>
    obtain ⟨⟨hin, hup⟩, hleft⟩ := hG
    refine Acts.prompt hT (.refl hT : Evolves Never Never s s) (acts_destroy (c := c) hT ha)
      fun a cb e hR hres => ?_
    rcases hR with ⟨hcb, hw⟩ | ⟨hcb, hw, -⟩
    · refine ⟨hT.lt_of_callback hcb, ?_⟩
      rcases hw with ⟨hw, -⟩ | ⟨hsafe, -, hw⟩
      · exact (Below.within hT hleft hw (hres.awaited hcb)).vacant hT
      · exact ((hup hsafe).within hT (hT.living i ha) hw (hres.awaited hcb)).vacant hT
    · exact ⟨hT.lt_of_callback hcb, (Below.within hT hleft hw (hres.awaited hcb)).vacant hT⟩
  | @release i ha =>
    have hleft : LeftBelow s i [] := hG
    exact prompt_dispose hT (acts_release (c := c) hT i) fun a hin hw =>
      (Below.within hT hleft hin hw).vacant hT
  | finish hs ha _ => exact prompt_finalize hT hs ha hG
  | @finallyEnd k x e scheduler hx ha =>
    unfold Patient at hG
    dsimp only at hG
    rw [hx] at hG
    exact Prompt.trans (.of_log rfl)
      (prompt_finallyHandlersDtor (s := dropContext s k) (hT.dropContext k) x ha hG)
  | @groupErrors i e scheduler ha =>
    have haround : LeftAround s i [] true := hG
    exact (prompt_catch _ _ _ hT ha (fun a ht hw =>
      (haround.tribe hT (hT.living i ha) ht hw).1.vacant hT) _ _).1

end Patient

/-! ## Whole runs -/

/-- **The awaiter waits.** In every patient run, nobody was unfinished at or below a scope
when a coroutine that awaited it was resumed without an exception. -/
theorem await_waits (c : Env E) (s : St E) (hr : ((lts c).restrict Patient).Reachable s) :
    ∀ a i left, Event.resumed a i none left ∈ s.log → left = [] := by
  have hind : ((lts c).restrict Patient).Inductive fun s =>
      Tree s ∧ ∀ a i left, Event.resumed a i none left ∈ s.log → left = [] := by
    refine ((tree_inductive c).restrict Patient).and (fun s hs => ?_) ?_
    · rw [show s = start from hs]
      intro a i left hx
      cases hx
    · rintro s l t hT - h ⟨hG, hst⟩ a i left hx
      rcases prompt_step hT hG hst a i left hx with hx | hx
      · exact h a i left hx
      · exact hx
  exact (hind.reachable s hr).2

/-- A scope with one coroutine is cancelled and awaited; the coroutine ends. -/
theorem await_waits_once :
    ∃ s : St Nat, Event.resumed 1 0 none [] ∈ s.log ∧
      ∀ a i left, Event.resumed a i none left ∈ s.log → left = [] := by
  obtain ⟨s, hr, hp⟩ := LTS.exists_of_execG (G := Patient) (show Init (start : St Nat) from rfl)
    (f := step plain)
    [.newScope none true, .spawn 0, .begin_ 0, .newScope none false, .spawn 1, .cancel 0 none false,
      .switch (some 1), .await 1 0 false, .finish 0 none false]
    (P := fun s => Event.resumed 1 0 none [] ∈ s.log) (by decide +kernel)
  exact ⟨s, hp, await_waits _ s hr⟩

/-- **Counterexample.** Of two coroutines in a cancelled scope one ends, and the awaiter is
resumed while the other is still running. -/
theorem resumed_too_early :
    ∃ s, (lts plain).Reachable s ∧ Event.resumed 2 0 none [1] ∈ s.log := by
  exact LTS.exists_from (f := step plain) start
    [.newScope none true, .spawn 0, .spawn 0, .begin_ 0, .begin_ 1, .newScope none false, .spawn 1,
      .cancel 0 none false, .switch (some 2), .await 2 0 false, .finish 0 none false] (by decide +kernel)

end PhpAsync.L2.Scopes
