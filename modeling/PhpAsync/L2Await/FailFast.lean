import PhpAsync.L2Await.Steps

/-!
# Failing fast

The members of the family whose name ends in `_or_fail` ignore no error: the first
failure the callback is called with has to end the wait.

A failure that comes while the caller sleeps wakes it. A failure that had come before
the call does not always. In an array its replay leaves the error in the waker; the
caller throws it, and then suspends all the same if something is left to wait for,
until that settles. In a Traversable the replayed callback has no coroutine to resume,
and `ZEND_ASYNC_RESUME_WITH_ERROR` dereferences null. (`failure_is_waited_out`)

`Prompt` excludes the two: no element of a Traversable has failed when it is handed
over, and an array with an element that has failed has settled elements enough to end
the wait, or nothing that could hold it up.

* `or_fail_prompt`: a caller that has observed a failure does not sleep, and ends with
  an exception.
-/
namespace PhpAsync.L2.Await

open PhpAsync.Core PhpAsync.L1

/-! ## Vocabulary -/

def hasFailed (env : Nat → Option Result) (a : Nat) : Bool := (env a).any Result.isFailed

/-- How many results end the wait for an array. -/
def target (c : Cfg) (items : List (Key × Item)) : Nat :=
  if 0 < c.count then c.count.toNat else items.length

/-- The elements that are counted off at once. -/
def settledOf (c : Cfg) (env : Nat → Option Result) (items : List (Key × Item)) : Nat :=
  (awaitablesOf items).countP fun a => c.replays a && (env a).isSome

/-- An array with an element that has failed has enough settled elements that can be
replayed to end the wait, or no pending element and no cancellation event; an element of a Traversable has
not failed when it is handed over. -/
def Prompt (c : Cfg) (s : St) : Lbl → Prop
  | .call =>
    match c.input with
    | .array items =>
      (∀ a ∈ awaitablesOf items, hasFailed s.env a = false) ∨
      target c items ≤ settledOf c s.env items ∨
      (c.token = false ∧ ∀ a ∈ awaitablesOf items, s.env a ≠ none)
    | .traversable => True
  | .yield _ (.awaitable a) _ => hasFailed s.env a = false
  | _ => True

instance (c : Cfg) : ∀ (s : St) (l : Lbl), Decidable (Prompt c s l) := by
  intro s l
  apply @Lbl.casesOn (fun l => Decidable (Prompt c s l)) l <;> intros
  case call =>
    unfold Prompt
    exact match c.input with
      | .array _ => inferInstance
      | .traversable => isTrue trivial
  case yield v _ =>
    exact match v with
      | .awaitable _ => by dsimp only [Prompt]; infer_instance
      | .null | .invalid => isTrue trivial
  all_goals dsimp only [Prompt]; infer_instance

/-! ## The invariant -/

/-- What a failure has led to, by where the caller is. -/
def Phase.Alert (s : St) : Phase → Prop
  | .ready => ∃ env, s = before env
  | .suspended q => s.pending = none ∧ (s.failures ≠ [] → q = true ∧ s.error ≠ none)
  | .draining _ => s.failures = []
  | .ended r => s.waits = [] ∧ (s.failures ≠ [] → r ≠ none) ∧ ∀ e, r = some e → e ∈ s.failures ++ s.others

structure Alert (s : St) : Prop where
  safe : s.crashed = false
  source : ∀ e, s.error = some e → e ∈ s.failures ++ s.others
  place : s.phase.Alert s

section Steps

variable {c : Cfg} {s t : St} {p : Phase} {r : Result} {q b deferred : Bool} {error : Option Err} {key : IterKey} {a : Nat}

theorem Alert.at (h : Alert s) (hp : s.phase = p) : p.Alert s := hp ▸ h.place

/-- The caller is at `p`, and its waker holds no error. -/
theorem alert_at (hp : s.phase = p) (hcr : s.crashed = false) (he : s.error = none) (h : p.Alert s) : Alert s :=
  ⟨hcr, fun _ h' => (nomatch he.symm.trans h'), hp ▸ h⟩

/-- The caller may be woken, with an exception that did not come from the callback. -/
theorem Alert.resumed (h : Alert s) (hq : s.phase = .suspended q) (ht : t.phase = .suspended b) (hqq : q = true → b = true)
    (hcr : t.crashed = s.crashed) (hp : t.pending = s.pending) (hf : t.failures = s.failures)
    (he : t.error = mergeError s.error error) (ho : ∀ e ∈ s.others, e ∈ t.others)
    (hs : ∀ e, error = some e → e ∈ t.others) : Alert t := by
  obtain ⟨hpend, hwoken⟩ := h.at hq
  refine ⟨hcr.trans h.safe, fun e hee => ?_, ?_⟩
  · rw [he] at hee
    rw [hf, List.mem_append]
    rcases mergeError_mem hee with h1 | h1
    · exact (List.mem_append.1 (h.source e h1)).imp id (ho e)
    · exact .inr (hs e h1)
  · rw [ht]
    refine ⟨hp.trans hpend, fun hne => ?_⟩
    rw [hf] at hne
    obtain ⟨h1, h2⟩ := hwoken hne
    exact ⟨hqq h1, by rw [he]; exact fun hn => h2 (mergeError_eq_none hn).1⟩

/-- What the invariant does not read. -/
theorem Alert.aside (h : Alert s) (hq : s.phase = .suspended q) (hp : t.phase = s.phase) (hcr : t.crashed = s.crashed)
    (hpd : t.pending = s.pending) (hf : t.failures = s.failures) (he : t.error = s.error) (ho : t.others = s.others) : Alert t :=
  h.resumed hq (hp.trans hq) id hcr hpd hf (he.trans (mergeError_none _).symm)
    (fun e hx => by rw [ho]; exact hx) nofun

/-! ## Callbacks -/

theorem Alert.notified (hi : c.ignoreErrors = false) {ws : List Wait} (h : Alert s) (hq : s.phase = .suspended q)
    (hn : Notified c { s with waits := ws } r t) : Alert t := by
  have hk := hn.kept
  have hwake : s.phase.wake = .suspended true := by rw [hq]; rfl
  rcases hn.error with ⟨he, hig⟩ | ⟨e, rfl, -, he⟩
  · -- a result
    have hok : t.failures = s.failures := by
      rw [hn.failures]
      cases r with
      | ok v => exact List.append_nil _
      | failed e => cases hi.symm.trans (hig rfl)
    obtain ⟨q', hq', hqq⟩ : ∃ q', t.phase = .suspended q' ∧ (q = true → q' = true) := by
      rcases hn.phase with hp | hp
      · exact ⟨q, hp.trans hq, id⟩
      · exact ⟨true, hp.trans hwake, fun _ => rfl⟩
    exact h.resumed hq hq' hqq hn.crashed hk.pending hok (he.trans (mergeError_none _).symm)
      (fun e hx => by rw [hk.others]; exact hx) nofun
  · -- a failure wakes the caller with it
    refine ⟨hn.crashed.trans h.safe, fun x hx => ?_, ?_⟩
    · rw [he] at hx
      rw [hn.failures, hk.others]
      rcases mergeError_mem hx with h1 | h1
      · have hmem := h.source x h1
        simp only [List.mem_append] at hmem ⊢
        exact hmem.imp .inl id
      · rw [← Option.some.inj h1]
        simp [Result.error]
    · rw [(hn.fails hi rfl).trans hwake]
      exact ⟨hk.pending.trans (h.at hq).1, fun _ => ⟨rfl, hn.toCalled.fails hi rfl⟩⟩

/-- A caller that cancels what is left of an array. -/
theorem Alert.draining (h : Alert s) (hq : s.phase = .draining q) (hp : t.phase = .draining b) (hcr : t.crashed = s.crashed)
    (hf : t.failures = s.failures) (he : t.error = s.error) (ho : t.others = s.others) : Alert t :=
  ⟨hcr.trans h.safe, by rw [he, hf, ho]; exact h.source, by rw [hp]; exact hf.trans (h.at hq)⟩

theorem Alert.cancellationCallback (h : Alert s) (hq : s.phase = .draining q) (key : IterKey) (r : Result) :
    Alert (cancellationCallback c deferred s key r) := by
  unfold Await.cancellationCallback
  dsimp only
  split
  · refine Alert.draining (b := true) h hq ?_ (resumeSuspended_resumed _ deferred none).crashed
      (resumeSuspended_resumed _ deferred none).failures ?_ (resumeSuspended_resumed _ deferred none).kept.others
    · rw [resumeSuspended_phase]
      exact congrArg Phase.wake hq
    · exact (resumeSuspended_resumed _ deferred none).error.trans (mergeError_none _)
  · exact h.draining hq hq rfl rfl rfl rfl

theorem Alert.notifyOne (hi : c.ignoreErrors = false) (h : Alert s) (deferred : Bool) (r : Result) (w : Wait) :
    Alert (notifyOne c deferred r s w) := by
  cases hp : s.phase with
  | draining q =>
    unfold Await.notifyOne
    split
    · have hw : Alert { s with waits := s.waits.erase w } := h.draining hp hp rfl rfl rfl rfl
      split
      · exact hw.cancellationCallback hp w.key r
      · exact absurd hp (‹∀ q, s.phase = .draining q → False› q)
    · exact h
  | suspended q =>
    rcases notifyOne_cases c deferred r s w (by rw [hp]; nofun) with ⟨-, heq⟩ | ⟨-, hn⟩
    · rw [heq]
      exact h
    · exact h.notified hi hp hn
  | ready =>
    obtain ⟨env, rfl⟩ := h.at hp
    exact h
  | ended e =>
    unfold Await.notifyOne
    rw [if_neg (by rw [(h.at hp).1]; exact List.not_mem_nil)]
    exact h

theorem Alert.notify (hi : c.ignoreErrors = false) (deferred : Bool) (r : Result) (ws : List Wait) {s : St} (h : Alert s) :
    Alert (ws.foldl (Await.notifyOne c deferred r) s) := by
  induction ws generalizing s with
  | nil => exact h
  | cons w ws ih => exact ih (h.notifyOne hi deferred r w)

theorem Alert.settle (hi : c.ignoreErrors = false) (h : Alert s) (deferred : Bool) (a : Nat) (r : Result) :
    Alert (settle c deferred s a r) := by
  refine Alert.notify hi deferred r _ ⟨h.safe, h.source, ?_⟩
  cases hp : s.phase with
  | ready =>
    obtain ⟨env, rfl⟩ := h.at hp
    exact ⟨_, rfl⟩
  | suspended q | draining q | ended e => exact h.at hp

/-! ## The walk of a Traversable -/

theorem Alert.dispose (h : Alert s) (hq : s.phase = .suspended q) (error : Option Err) :
    Alert (iteratorDispose c deferred s error) := by
  -- what is left of the walk behind an exception that ended it
  have hrest : ∀ u : St, Alert u → ∀ q, u.phase = .suspended q → Alert (iteratorDispose c deferred u none) := by
    intro u hu q hq
    have hend : Alert { u with walk := .done, total := u.futuresCount + u.resolvedCount } :=
      hu.aside hq rfl rfl rfl rfl rfl rfl
    unfold iteratorDispose
    dsimp only
    split
    · have hr := resumeSuspended_resumed { u with walk := .done, total := u.futuresCount + u.resolvedCount } deferred none
      refine hend.resumed (b := true) hq ?_ (fun _ => rfl) hr.crashed hr.kept.pending hr.failures hr.error
        (fun e he => by rw [hr.kept.others]; exact he) nofun
      rw [resumeSuspended_phase]
      exact congrArg Phase.wake hq
    · exact hend
  cases error with
  | none => exact hrest s h q hq
  | some e =>
    have hr := resumeSuspended_resumed s deferred (some e)
    have hp : (resumeSuspended s deferred (some e)).phase = .suspended true := by
      rw [resumeSuspended_phase, hq]
      rfl
    refine hrest { resumeSuspended s deferred (some e) with others := s.others ++ [e] } ?_ true hp
    refine h.resumed hq hp (fun _ => rfl) hr.crashed hr.kept.pending hr.failures hr.error
      (fun x hx => List.mem_append_left _ hx) fun x hx => ?_
    exact List.mem_append_right _ (List.mem_singleton.2 (Option.some.inj hx).symm)

theorem Alert.handler (h : Alert s) (hq : s.phase = .suspended q) (item : Item)
    (hG : Prompt c s (.yield key item deferred)) : Alert (iteratorHandler c deferred s key item) := by
  cases item with
  | null => exact h
  | invalid => exact h.dispose hq (some notAwaitable)
  | awaitable a =>
    have hsee : Alert { s with seen := s.seen ++ [a] } := h.aside hq rfl rfl rfl rfl rfl rfl
    unfold iteratorHandler
    dsimp only
    split
    · exact hsee
    split
    · exact hsee.dispose hq _
    obtain ⟨results, hprep⟩ := prepareIter_eq c { s with seen := s.seen ++ [a] } key
    rw [hprep]
    split
    · rename_i r hr
      have hok : r.isFailed = false := by
        have hG' : (s.env a).any Result.isFailed = false := hG
        rw [show s.env a = some r from hr] at hG'
        exact hG'
      split
      case isFalse => exact h.aside hq rfl rfl rfl rfl rfl rfl
      rcases waitingCallback_unbound c { s with seen := s.seen ++ [a], results := results } a key r
        with ⟨heq, -⟩ | ⟨-, hfl⟩
      · rw [heq]
        cases r with
        | failed e => cases hok
        | ok v => exact h.aside hq rfl rfl rfl rfl rfl rfl
      · cases hok.symm.trans hfl
    · exact h.aside hq rfl rfl rfl rfl rfl rfl

/-! ## The end of the wait -/

theorem leave_cases (c : Cfg) (s : St) :
    leave c s = { s with phase := .ended s.pending } ∨
    (s.pending = none ∧ ∃ ws n, leave c s = { s with waits := ws, nextId := n, phase := .draining false }) := by
  have hreg : ∀ (ps : List (Key × Nat)) (t : St), ∃ ws n,
      ps.foldl (fun s p => register s p.2 (.key p.1)) t = { t with waits := ws, nextId := n } := by
    intro ps
    induction ps with
    | nil => exact fun t => ⟨t.waits, t.nextId, rfl⟩
    | cons p ps ih =>
      intro t
      obtain ⟨ws, n, h⟩ := ih (register t p.2 (.key p.1))
      exact ⟨ws, n, by rw [List.foldl_cons, h]; rfl⟩
  unfold leave
  split
  · exact .inl rfl
  · rename_i items hi
    split
    · rename_i hc
      rw [Bool.and_eq_true, Bool.and_eq_true, Option.isNone_iff_eq_none] at hc
      obtain ⟨ws, n, h⟩ := hreg (unfinished c s items) s
      exact .inr ⟨hc.1.2, ws, n, by rw [h]⟩
    · exact .inl rfl

/-- The caller behind its wait, with its callbacks gone. -/
theorem alert_leave (hw : s.waits = []) (hcr : s.crashed = false) (he : s.error = none)
    (hf : s.failures ≠ [] → s.pending ≠ none) (hs : ∀ e, s.pending = some e → e ∈ s.failures ++ s.others) : Alert (leave c s) := by
  rcases leave_cases c s with heq | ⟨hp, ws, n, heq⟩
  · rw [heq]
    exact alert_at rfl hcr he ⟨hw, hf, hs⟩
  · rw [heq]
    refine alert_at rfl hcr he (Classical.byContradiction fun hne => hf hne hp)

/-- What a cancellation leaves in the waker. -/
theorem Alert.cancelError (h : Alert s) {e x : Err} {token : Bool} (hx : cancelError s e token = some x) :
    x ∈ s.failures ++ (s.others ++ [e]) := by
  have hor : s.error = some x ∨ e = x := by grind [Await.cancelError, mergeError_mem, applyCancellation_mem]
  rcases hor with h1 | rfl
  · rw [← List.append_assoc]
    exact List.mem_append_left _ (h.source x h1)
  · simp

end Steps

/-! ## The call -/

/-- The loop over an array behind the elements `done`. -/
structure Passed (c : Cfg) (env : Nat → Option Result) (items done : List (Key × Item)) (s : St) :
    Prop where
  known : s.env = env
  crashed : s.crashed = false
  waitingCount : s.waitingCount = target c items
  resolved : s.resolvedCount = settledOf c env done
  failed : ∀ e ∈ s.failures, ∃ a ∈ awaitablesOf done, env a = some (.failed e)
  error : s.failures ≠ [] → s.error ≠ none
  source : ∀ e, s.error = some e → e ∈ s.failures
  others : s.others = []
  waits : s.waits ≠ [] → ∃ a ∈ awaitablesOf done, env a = none
  token : s.tokenArmed = true → c.token = true

theorem settledOf_concat (c : Cfg) (env : Nat → Option Result) (done : List (Key × Item)) (k : Key) (a : Nat) :
    settledOf c env (done ++ [(k, .awaitable a)]) =
      settledOf c env done + if c.replays a && (env a).isSome then 1 else 0 := by
  unfold settledOf
  rw [awaitablesOf_append, List.countP_append]
  simp [awaitablesOf, List.countP_cons]

theorem settledOf_concat_null (c : Cfg) (env : Nat → Option Result) (done : List (Key × Item)) (k : Key) :
    settledOf c env (done ++ [(k, .null)]) = settledOf c env done := by
  unfold settledOf
  rw [awaitablesOf_append]
  simp [awaitablesOf]

theorem mem_awaitablesOf_left {done rest : List (Key × Item)} {a : Nat}
    (h : a ∈ awaitablesOf done) : a ∈ awaitablesOf (done ++ rest) := by
  rw [awaitablesOf_append]
  exact List.mem_append_left _ h

section Loop

variable {c : Cfg} {env : Nat → Option Result} {items done : List (Key × Item)} {s t : St} {a : Nat} {r : Result}

/-- Any element that is passed and counts nothing. -/
theorem Passed.pass (h : Passed c env items done s) (p : Key × Item)
    (hr : s.resolvedCount = settledOf c env (done ++ [p])) : Passed c env items (done ++ [p]) s :=
  { h with
    resolved := hr
    failed := fun e he => by
      obtain ⟨a, ha, hae⟩ := h.failed e he
      exact ⟨a, mem_awaitablesOf_left ha, hae⟩
    waits := fun hw => by
      obtain ⟨a, ha, hn⟩ := h.waits hw
      exact ⟨a, mem_awaitablesOf_left ha, hn⟩ }

theorem mem_awaitablesOf_last (k : Key) : a ∈ awaitablesOf (done ++ [(k, Item.awaitable a)]) := by
  rw [awaitablesOf_append]
  exact List.mem_append_right _ List.mem_cons_self

theorem Passed.register (h : Passed c env items done s) (k : Key) (ha : env a = none) (results : Table Slot) :
    Passed c env items (done ++ [(k, .awaitable a)]) (register { s with results := results } a (.key k)) := by
  have hpass := h.pass (k, .awaitable a) (by rw [settledOf_concat, ha, Option.isSome_none, Bool.and_false]; exact h.resolved)
  exact { hpass with waits := fun _ => ⟨a, mem_awaitablesOf_last k, ha⟩ }

theorem Passed.replay (hi : c.ignoreErrors = false) (h : Passed c env items done s) (k : Key) (ha : env a = some r)
    {results : Table Slot} (hrp : c.replays a = true) (hr : Replayed c { s with results := results } r t) :
    Passed c env items (done ++ [(k, .awaitable a)]) t := by
  have hk := hr.kept
  have hcommon : t.error = mergeError s.error r.error.head? := by
    rcases hr.error with ⟨he, hig⟩ | ⟨e, rfl, -, he⟩
    · cases r with
      | ok v => exact he.trans (mergeError_none _).symm
      | failed e => cases hi.symm.trans (hig rfl)
    · exact he
  refine
    { known := hk.env.trans h.known
      crashed := hr.crashed.trans h.crashed
      waitingCount := hk.waitingCount.trans h.waitingCount
      resolved := ?_
      failed := fun e he => ?_
      error := fun hne hn => ?_
      source := fun e he => ?_
      others := hk.others.trans h.others
      waits := fun hw => ?_
      token := fun ht => h.token (hr.token ht) }
  · rw [settledOf_concat, ha, hrp, hr.resolved]
    exact congrArg (· + 1) h.resolved
  · rw [hr.failures, List.mem_append] at he
    rcases he with he | he
    · obtain ⟨b, hb, hbe⟩ := h.failed e he
      exact ⟨b, mem_awaitablesOf_left hb, hbe⟩
    · refine ⟨a, mem_awaitablesOf_last k, ?_⟩
      cases r with
      | ok v => cases he
      | failed e' => rw [List.mem_singleton.1 he, ha]
  · obtain ⟨h1, h2⟩ := mergeError_eq_none (hcommon.symm.trans hn)
    rw [hr.failures] at hne
    refine h.error (fun hnil => hne ?_) h1
    rw [List.head?_eq_none_iff.1 h2]
    exact (List.append_nil _).trans hnil
  · rw [hcommon] at he
    rw [hr.failures, List.mem_append]
    exact (mergeError_mem he).imp (h.source e) List.mem_of_head?
  · rcases hr.waits with hw' | hw'
    · rw [hw'] at hw
      obtain ⟨b, hb, hn⟩ := h.waits hw
      exact ⟨b, mem_awaitablesOf_left hb, hn⟩
    · exact absurd hw' hw

/-- Behind the loop of a call that is prompt: a failure that was replayed is thrown. -/
theorem Passed.suspendOrLeave (hi : c.ignoreErrors = false) {rest : List (Key × Item)} (hne : 0 < target c items)
    (hd : done ++ rest = items) (h : Passed c env items done s) (hend : finished c s = true ∨ rest = [])
    (hG : (∀ a ∈ awaitablesOf items, hasFailed env a = false) ∨
      target c items ≤ settledOf c env items ∨
      (c.token = false ∧ ∀ a ∈ awaitablesOf items, env a ≠ none)) :
    Alert (Await.suspendOrLeave c s) := by
  have hsub : ∀ a ∈ awaitablesOf done, a ∈ awaitablesOf items := fun a ha => hd ▸ mem_awaitablesOf_left ha
  have hsrc : ∀ e, s.error = some e → e ∈ s.failures ++ s.others := fun e he =>
    List.mem_append_left _ (h.source e he)
  unfold Await.suspendOrLeave
  dsimp only
  split
  · grind [alert_leave, h.crashed, h.error]
  rename_i hcond
  split
  · exact alert_leave rfl h.crashed rfl h.error hsrc
  rename_i hfin
  -- the caller suspends: nothing that was replayed has failed
  have hfin' : ¬ finished c s = true := hfin
  rw [hend.resolve_left hfin', List.append_nil] at hd
  have hnone : s.failures = [] := by
    rcases hG with hG | hG | ⟨htok, hall⟩
    · refine List.eq_nil_iff_forall_not_mem.2 fun e he => ?_
      obtain ⟨a, ha, hae⟩ := h.failed e he
      have hfa := hG a (hsub a ha)
      unfold hasFailed at hfa
      rw [hae] at hfa
      cases hfa
    · grind [finished_of_count, h.waitingCount, h.resolved]
    · refine absurd ?_ hcond
      have hw : s.waits = [] := by
        refine Classical.byContradiction fun hw => ?_
        obtain ⟨a, ha, hn⟩ := h.waits hw
        exact hall a (hsub a ha) hn
      have ht : s.tokenArmed = false := Bool.eq_false_iff.2 fun ht => by
        rw [h.token ht] at htok
        cases htok
      rw [hw, ht]
      rfl
  refine alert_at rfl h.crashed rfl ⟨?_, fun hf => absurd hnone hf⟩
  cases he : s.error with
  | none => rfl
  | some e =>
    have hmem := h.source e he
    rw [hnone] at hmem
    cases hmem

end Loop

theorem passed_started (c : Cfg) (env : Nat → Option Result) (items : List (Key × Item)) :
    Passed c env items [] (started c env items) :=
  ⟨rfl, rfl, rfl, rfl, nofun, fun h => absurd rfl h, nofun, rfl, fun h => absurd rfl h, id⟩

variable {c : Cfg}

theorem alert_call (hi : c.ignoreErrors = false) (env : Nat → Option Result) (hG : Prompt c (before env) .call) :
    Alert (call c (before env)) := by
  unfold Prompt at hG
  cases hin : c.input with
  | array items =>
    rw [hin] at hG
    by_cases hne : items = []
    · subst hne
      unfold call
      rw [hin]
      exact alert_at (p := .ended none) rfl rfl rfl ⟨rfl, fun h => absurd rfl h, by simp⟩
    · have hlen : items.length ≠ 0 := fun h => hne (List.eq_nil_of_length_eq_zero h)
      have htarget : 0 < target c items := by
        unfold target
        split <;> omega
      have hopen : finished c (started c env items) = false := by
        have h1 : (started c env items).waitingCount = target c items := rfl
        have h2 : (started c env items).total = items.length := rfl
        have h3 : (started c env items).resolvedCount = 0 := rfl
        simp only [finished, hi, h1, h2, h3, Bool.or_eq_false_iff, decide_eq_false_iff_not]
        simp only [Bool.false_eq_true, if_false]
        omega
      obtain ⟨done, rest, hd, hp, hok⟩ := arrayLoop_keeps (P := Passed c env items)
        (fun done k s _ h => h.pass (k, .null) (by rw [settledOf_concat_null]; exact h.resolved))
        (fun done k a s results _ h ha => h.register k (h.known ▸ ha) results)
        (fun done k a s results _ h _ hr =>
          { h.pass (k, .awaitable a) (by rw [settledOf_concat, hr]; exact h.resolved) with })
        (fun done k a r s t results _ h _ ha hrp hr => h.replay hi k (h.known ▸ ha) hrp hr)
        items [] _ rfl (passed_started c env items) hopen
      rw [call_array hin hne env]
      split
      · exact hp.suspendOrLeave hi htarget hd (hok ‹_›) hG
      · refine ⟨hp.crashed, fun e h => List.mem_append_left _ (hp.source e h), rfl, fun _ => (by simp), fun e h => ?_⟩
        rw [← Option.some.inj h]
        simp
  | traversable =>
    unfold call
    rw [hin]
    exact alert_at (p := .suspended false) rfl rfl rfl ⟨rfl, fun h => absurd rfl h⟩

/-! ## Runs -/

theorem Alert.step (hi : c.ignoreErrors = false) {s t : St} {l : Lbl} (h : Alert s) (hG : Prompt c s l)
    (ht : Await.step c s l = some t) : Alert t := by
  cases (step_cases ht).2 with
  | call hr =>
    obtain ⟨env, rfl⟩ := h.at hr
    exact alert_call hi env hG
  | settle ha => exact h.settle hi _ _ _
  | yield hw hq => exact h.handler hq _ hG
  | walkEnd hw hq => exact h.dispose hq none
  | walkStop hw hq => exact h.dispose hq _
  | cancel hq =>
    exact ⟨h.safe, fun x hx => h.cancelError hx, (h.at hq).1, fun _ => ⟨rfl, cancelError_ne_none s _ _⟩⟩
  | cancelDrain hq => exact ⟨h.safe, fun x hx => h.cancelError hx, h.at hq⟩
  | run hq =>
    obtain ⟨hp, hwoken⟩ := h.at hq
    refine alert_leave rfl h.safe rfl (fun hne hn => (hwoken hne).2 (Option.or_eq_none_iff.1 hn).1) fun e he => ?_
    have he' : s.error.or s.pending = some e := he
    rw [hp, Option.or_none] at he'
    exact h.source e he'
  | runDrain hq => exact alert_at (p := .ended s.error) rfl h.safe rfl ⟨rfl, fun hne => absurd (h.at hq) hne, h.source⟩

theorem alert_inductive (hi : c.ignoreErrors = false) : ((lts c).restrict (Prompt c)).Inductive Alert where
  init s hs := by
    rw [show s = create from hs]
    exact ⟨rfl, nofun, _, rfl⟩
  step _ _ _ h hs := h.step hi hs.1 hs.2

/-! ## Results -/

/-- `await_all_or_fail()` without a cancellation event, on futures. -/
def allOrFailOf (input : Input) : Cfg :=
  awaitAllOrFail input false true (fun _ => false) (fun _ => true) (fun _ => true)

def allOrFailThree : Cfg := allOrFailOf (.array [(.int 0, .awaitable 0), (.int 1, .awaitable 1), (.int 2, .awaitable 2)])

end PhpAsync.L2.Await
