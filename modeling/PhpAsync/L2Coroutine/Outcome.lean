import PhpAsync.L2Coroutine.Lifecycle

/-!
# The outcome of a coroutine

The calls suspended on a coroutine get its outcome from the notification, the later
ones from what it has stored. `settle` computes both, and they are the same object
except in one case: an exception is stored (the coroutine cancelled itself, or the
runtime is shutting down) and what ends the coroutine is another cancellation. Then
the notification carries the second and the first stays stored.

* `settle_agrees`: the exact condition under which the two are the same.
* `outcome_is_stable`: in every run that meets it at the end of the coroutine, all
  `await()` calls, early and late, obtain one outcome.
* `awaiter_differs`: where it is not met, a suspended call and a later one differ.
-/
namespace PhpAsync.L2.Coroutine

open PhpAsync.Core PhpAsync.L1

variable {V : Type}

/-! ## What is notified and what is stored -/

/-- The exception pending when the step `l` finishes the coroutine. -/
def pending (s : St V) : Lbl V → Option Err
  | .execute => s.error
  | .finish (.throws e) => some e
  | _ => none

/-- A cancellation that ends the coroutine is the exception it stores, if it stores one. -/
def Consistent (s : St V) (l : Lbl V) : Prop :=
  match pending s l, s.exception with
  | some e, some c => e.isCancellation = true → e = c
  | _, _ => True

instance : ∀ (s : St V) (l : Lbl V), Decidable (Consistent s l) := by
  intro s l
  unfold Consistent
  split <;> infer_instance

variable {e : Err} {l : Lbl V} {s s' : St V}

theorem settle_two {c : Err} (h : e.isExit = false) :
    settle (some e) (some c) = if e.isCancellation then (some e, some c) else (some e, some e) := by
  unfold settle
  rw [Option.filter_some, if_pos (by rw [h]; rfl)]

theorem settle_exit (c : Option Err) (h : e.isExit = true) : settle (some e) c = (c, c) := by
  unfold settle
  rw [Option.filter_some, if_neg (by rw [h]; decide)]

theorem settle_one (h : e.isExit = false) : settle (some e) none = (some e, some e) := by
  unfold settle
  rw [Option.filter_some, if_pos (by rw [h]; rfl)]

/-- The notified exception is the stored one unless a cancellation meets another
exception. -/
theorem settle_agrees (thrown stored : Option Err) :
    (settle thrown stored).1 = (settle thrown stored).2 ↔
      ∀ e c, thrown = some e → stored = some c → e.isCancellation = true → e = c := by
  cases thrown with
  | none =>
    refine ⟨fun _ e c h => (by cases h), fun _ => ?_⟩
    cases stored <;> rfl
  | some e =>
    cases hx : e.isExit with
    | true => grind [settle_exit, Err.not_exit_of_cancellation]
    | false =>
      cases stored with
      | none => grind [settle_one]
      | some c => grind [settle_two]

theorem settle_of_consistent (h : Consistent s l) :
    (settle (pending s l) s.exception).1 = (settle (pending s l) s.exception).2 := by
  rw [settle_agrees]
  intro e c he hc
  unfold Consistent at h
  rw [he, hc] at h
  exact h

theorem settle_of_not_consistent (h : ¬ Consistent s l) :
    (settle (pending s l) s.exception).1 ≠ (settle (pending s l) s.exception).2 := by
  intro heq
  rw [settle_agrees] at heq
  apply h
  unfold Consistent
  split
  · rename_i e c he hc
    exact heq e c he hc
  · trivial

/-! ## Steps -/

/-- The steps that leave the calls alone, and the outcome of a finished coroutine. -/
structure Quiet (s s' : St V) : Prop where
  finished : s'.finished = s.finished
  awaiters : s'.awaiters = s.awaiters
  got : s'.got = s.got
  left : s'.left = s.left
  calls : s'.calls = s.calls
  kept : s.finished = true →
    s'.running = s.running ∧ s'.result = s.result ∧ s'.exception = s.exception

theorem Quiet.refl (s : St V) : Quiet s s := ⟨rfl, rfl, rfl, rfl, rfl, fun _ => ⟨rfl, rfl, rfl⟩⟩

/-- What a step can do: leave the outcome alone, finish the coroutine, start or drop
a call. -/
inductive Move (s : St V) : Lbl V → St V → Prop
  | quiet {l : Lbl V} {s' : St V} (h : Quiet s s') : Move s l s'
  | ends {l : Lbl V} {t : St V} (hopen : s.finished = false) (hx : t.exception = s.exception)
      (ha : t.awaiters = s.awaiters) (hg : t.got = s.got) (hl : t.left = s.left)
      (hc : t.calls = s.calls) : Move s l (finalize t (pending s l))
  | await : Move s .await (await s)
  | leave {call : Nat} (h : call ∈ s.awaiters) :
      Move s (.leave call)
        { s with awaiters := s.awaiters.erase call, left := s.left ++ [call] }

theorem enqueue_quiet (s : St V) : Quiet s (enqueue s) := by
  unfold enqueue
  split
  · exact Quiet.refl s
  · exact ⟨rfl, rfl, rfl, rfl, rfl, fun _ => ⟨rfl, rfl, rfl⟩⟩

theorem resume_quiet (s : St V) (error : Option Err) : Quiet s (resume s error) := by
  obtain ⟨h1, h2, h3, h4, h5, h6⟩ := enqueue_quiet { s with error := mergeError s.error error }
  exact ⟨h1, h2, h3, h4, h5, h6⟩

theorem cancelSuspended_quiet (s : St V) (error : Err) (safely : Bool) :
    Quiet s (cancelSuspended s error safely) := by
  have hset : ∀ e, Quiet s (enqueue { s with cancelled := true, error := e }) := fun e => by
    obtain ⟨h1, h2, h3, h4, h5, h6⟩ := enqueue_quiet { s with cancelled := true, error := e }
    exact ⟨h1, h2, h3, h4, h5, h6⟩
  unfold cancelSuspended
  split
  · exact ⟨rfl, rfl, rfl, rfl, rfl, fun _ => ⟨rfl, rfl, rfl⟩⟩
  · split
    · exact ⟨rfl, rfl, rfl, rfl, rfl, fun _ => ⟨rfl, rfl, rfl⟩⟩
    · split
      · exact hset s.error
      · exact hset _

theorem cancelOther_quiet (s : St V) (error : Err) (safely : Bool) :
    Quiet s (cancelOther s error safely) := by
  unfold cancelOther
  split
  · exact ⟨rfl, rfl, rfl, rfl, rfl, fun _ => ⟨rfl, rfl, rfl⟩⟩
  · exact cancelSuspended_quiet s error safely

/-- A cancellation reaches no finished coroutine. -/
theorem cancel_quiet (s : St V) (error : Option Err) (safely : Bool) :
    Quiet s (cancel s error safely) := by
  unfold cancel
  split
  · exact Quiet.refl s
  · rename_i hf
    have hopen : s.finished = true → False := fun h => hf h
    split
    · split <;> exact ⟨rfl, rfl, rfl, rfl, rfl, fun h => (hopen h).elim⟩
    · split
      · exact cancelOther_quiet s _ safely
      · obtain ⟨h1, h2, h3, h4, h5, h6⟩ :=
          cancelOther_quiet { s with fresh := s.fresh + 1 } (newCancellation s) safely
        exact ⟨h1, h2, h3, h4, h5, h6⟩

theorem shutdown_quiet (cancellation : Err) (h : s.finished = false) : Quiet s (shutdown s cancellation) := by
  have hopen : s.finished = true → False := fun h' => by rw [h] at h'; cases h'
  unfold shutdown
  split
  · exact ⟨rfl, rfl, rfl, rfl, rfl, fun h' => (hopen h').elim⟩
  · obtain ⟨h1, h2, h3, h4, h5, _⟩ := cancel_quiet { s with guarded := false } (some cancellation) false
    exact ⟨h1, h2, h3, h4, h5, fun h' => (hopen h').elim⟩

theorem execute_move (h : execute s = some s') : Move s .execute s' := by
  unfold execute at h
  split at h
  · cases h
  · rename_i hf
    have hopen : s.finished = false := by grind
    split at h
    · split at h
      · cases h
        exact .ends (t := { s with error := none }) hopen rfl rfl rfl rfl rfl
      · cases h
    · split at h
      · rename_i e he
        cases h
        have hp : pending s .execute = some e := he
        have hm := Move.ends (s := s) (l := .execute) (t := { s with started := true, error := none })
          hopen rfl rfl rfl rfl rfl
        rw [hp] at hm
        exact hm
      · cases h
        refine .quiet ⟨rfl, rfl, rfl, rfl, rfl, fun h' => ?_⟩
        rw [hopen] at h'
        cases h'
    · cases h

/-- Every step is one of the moves; only a coroutine that runs can be finished. -/
theorem step_move (hrun : s.finished = true → s.running = false) (h : step s l = some s') : Move s l s' := by
  have hopen : s.running = true → s.finished = false := fun hr => by grind
  cases l with
  | execute => exact execute_move h
  | suspend | yield | protect | unprotect =>
    simp only [step] at h
    split at h
    · rename_i hr
      cases h
      refine .quiet ⟨rfl, rfl, rfl, rfl, rfl, fun h' => ?_⟩
      rw [hopen hr] at h'
      cases h'
    · cases h
  | resume error =>
    simp only [step] at h
    split at h
    · cases h
      exact .quiet (resume_quiet s error)
    · cases h
  | switchIn =>
    simp only [step] at h
    split at h
    · rename_i hc
      cases h
      refine .quiet ⟨rfl, rfl, rfl, rfl, rfl, fun h' => ?_⟩
      rw [hc.2.1] at h'
      cases h'
    · cases h
  | cancel error safely =>
    cases h
    exact .quiet (cancel_quiet s error safely)
  | shutdown cancellation =>
    simp only [step] at h
    split at h
    · cases h
    · rename_i hf
      cases h
      exact .quiet (shutdown_quiet cancellation (Bool.eq_false_iff.2 hf))
  | finish e =>
    simp only [step] at h
    split at h
    · rename_i hr
      cases h
      cases e with
      | returns v =>
        exact .ends (t := { s with result := some v }) (hopen hr) rfl rfl rfl rfl rfl
      | throws e => exact .ends (t := s) (hopen hr) rfl rfl rfl rfl rfl
    · cases h
  | await =>
    cases h
    exact .await
  | leave call =>
    simp only [step] at h
    split at h
    · rename_i hm
      cases h
      exact .leave hm
    · cases h

/-! ## One outcome -/

/-- What is known of the calls: none has an outcome before the end, all of them have
the stored one behind it, and no call is lost. -/
structure Agreed (s : St V) : Prop where
  early : s.finished = false → s.got = []
  idle : s.finished = true → s.running = false
  noneWaits : s.finished = true → s.awaiters = []
  same : ∀ p ∈ s.got, p.2 = outcome s.result s.exception
  counted : ∀ call < s.calls, call ∈ s.awaiters ∨ call ∈ s.left ∨ ∃ p ∈ s.got, p.1 = call

theorem Agreed.quiet (h : Agreed s) (hq : Quiet s s') : Agreed s' where
  early hf := by rw [hq.got]; exact h.early (hq.finished ▸ hf)
  idle hf := by grind [hq.finished, hq.kept, h.idle]
  noneWaits hf := by rw [hq.awaiters]; exact h.noneWaits (hq.finished ▸ hf)
  same p hp := by
    rw [hq.got] at hp
    cases hf : s.finished with
    | false => rw [h.early hf] at hp; cases hp
    | true =>
      rw [(hq.kept hf).2.1, (hq.kept hf).2.2]
      exact h.same p hp
  counted call hc := by
    rw [hq.awaiters, hq.left, hq.got]
    exact h.counted call (hq.calls ▸ hc)

theorem Agreed.ends {t : St V} {thrown : Option Err} (h : Agreed s) (hopen : s.finished = false)
    (hs : (settle thrown t.exception).1 = (settle thrown t.exception).2) (ha : t.awaiters = s.awaiters)
    (hg : t.got = s.got) (hl : t.left = s.left) (hc : t.calls = s.calls) : Agreed (finalize t thrown) where
  early hf := by cases hf
  idle _ := rfl
  noneWaits _ := rfl
  same p hp := by
    have hp' : p ∈ t.got ++ t.awaiters.map fun a =>
        (a, outcome t.result (settle thrown t.exception).1) := hp
    rw [hg, h.early hopen, List.nil_append, List.mem_map] at hp'
    obtain ⟨a, -, rfl⟩ := hp'
    show outcome t.result (settle thrown t.exception).1 = outcome t.result (settle thrown t.exception).2
    rw [hs]
  counted call hcall := by
    have hlt : call < s.calls := hc ▸ hcall
    rcases h.counted call hlt with hw | hw | ⟨p, hp, hpc⟩
    · refine .inr (.inr ⟨(call, outcome t.result (settle thrown t.exception).1), ?_, rfl⟩)
      exact List.mem_append_right _ (List.mem_map.2 ⟨call, ha ▸ hw, rfl⟩)
    · exact .inr (.inl (hl ▸ hw))
    · exact .inr (.inr ⟨p, List.mem_append_left _ (hg ▸ hp), hpc⟩)

theorem await_open (hf : s.finished = false) :
    await s = { s with calls := s.calls + 1, awaiters := s.awaiters ++ [s.calls] } := by
  unfold await replay
  rw [hf]
  rfl

theorem await_finished (hf : s.finished = true) :
    await s =
      { s with calls := s.calls + 1, got := s.got ++ [(s.calls, outcome s.result s.exception)] } := by
  unfold await replay
  rw [hf]
  rfl

theorem Agreed.await (h : Agreed s) : Agreed (await s) := by
  cases hf : s.finished with
  | false =>
    rw [await_open hf]
    refine ⟨fun _ => h.early hf, h.idle, fun hf' => ?_, h.same, fun call hc => ?_⟩
    · have hf'' : s.finished = true := hf'
      rw [hf] at hf''
      cases hf''
    · rcases Nat.lt_succ_iff_lt_or_eq.1 hc with hlt | rfl
      · rcases h.counted call hlt with hw | hw
        · exact .inl (List.mem_append_left _ hw)
        · exact .inr hw
      · exact .inl (List.mem_append_right _ (List.mem_singleton.2 rfl))
  | true =>
    rw [await_finished hf]
    refine ⟨fun hf' => ?_, h.idle, h.noneWaits, fun p hp => ?_, fun call hc => ?_⟩
    · have hf'' : s.finished = false := hf'
      rw [hf] at hf''
      cases hf''
    · grind [h.same]
    · rcases Nat.lt_succ_iff_lt_or_eq.1 hc with hlt | rfl
      · rcases h.counted call hlt with hw | hw | ⟨p, hp, hpc⟩
        · exact .inl hw
        · exact .inr (.inl hw)
        · exact .inr (.inr ⟨p, List.mem_append_left _ hp, hpc⟩)
      · exact .inr (.inr ⟨_, List.mem_append_right _ (List.mem_singleton.2 rfl), rfl⟩)

theorem Agreed.leave {call : Nat} (h : Agreed s) (hm : call ∈ s.awaiters) :
    Agreed { s with awaiters := s.awaiters.erase call, left := s.left ++ [call] } where
  early := h.early
  idle := h.idle
  noneWaits hf := by
    have hnil : s.awaiters = [] := h.noneWaits hf
    rw [hnil] at hm
    cases hm
  same := h.same
  counted k hk := by grind [h.counted]

theorem agreed_inductive : ((lts V).restrict Consistent).Inductive Agreed where
  init s hi := by
    have hs : s = spawn := hi
    subst hs
    exact ⟨fun _ => rfl, fun h => (by cases h), fun h => (by cases h), fun p hp => (by cases hp),
      fun call hc => absurd hc (Nat.not_lt_zero call)⟩
  step s l s' h hs := by
    obtain ⟨hcons, hst⟩ := hs
    cases step_move h.idle hst with
    | quiet hq => exact h.quiet hq
    | ends hopen hx ha hg hl hc =>
      refine h.ends hopen ?_ ha hg hl hc
      rw [hx]
      exact settle_of_consistent hcons
    | await => exact h.await
    | leave hm => exact h.leave hm

/-! ## Results -/

/-- **Counterexample.** A coroutine cancels itself with one object, suspends, is awaited,
and is cancelled by somebody else with another object, which ends it. The call that
was waiting obtains the second object, a later call the first. -/
theorem self_cancellation_hides_outcome :
    ∃ s, (lts Nat).Reachable s ∧ s.finished = true ∧
      s.got = [(0, .error ⟨.given 2, .cancellation⟩), (1, .error ⟨.given 1, .cancellation⟩)] := by
  exact LTS.exists_from (f := step) spawn
    [.execute, .cancel (some ⟨.given 1, .cancellation⟩) false, .suspend, .await,
      .cancel (some ⟨.given 2, .cancellation⟩) false, .switchIn,
      .finish (.throws ⟨.given 2, .cancellation⟩), .await] (by decide +kernel)

/-- **One outcome.** In every run whose end is consistent, once the coroutine has
finished there is one outcome that every call obtained that did not give up before. -/
theorem outcome_is_stable (V : Type) (s : St V) (hr : ((lts V).restrict Consistent).Reachable s)
    (hf : s.finished = true) :
    ∃ o, (∀ p ∈ s.got, p.2 = o) ∧ (∀ call < s.calls, call ∉ s.left → (call, o) ∈ s.got) ∧
      replay s = some o := by
  have h := agreed_inductive.reachable s hr
  refine ⟨outcome s.result s.exception, h.same, fun call hc hl => ?_, ?_⟩
  · rcases h.counted call hc with hw | hw | ⟨p, hp, hpc⟩
    · rw [h.noneWaits hf] at hw
      cases hw
    · exact absurd hw hl
    · have hsame := h.same p hp
      obtain ⟨k, o⟩ := p
      dsimp only at hpc hsame
      rw [← hpc, ← hsame]
      exact hp
  · unfold replay
    rw [if_pos hf]

/-- A coroutine that cancels itself, is awaited, cancelled again with the same object
and awaited once more. -/
theorem outcome_is_stable_twice :
    ∃ s : St Nat, s.finished = true ∧ s.got.length = 2 ∧
      ∃ o, (∀ p ∈ s.got, p.2 = o) ∧ (∀ call < s.calls, call ∉ s.left → (call, o) ∈ s.got) ∧
        replay s = some o := by
  obtain ⟨s, hr, hf, hl⟩ := LTS.existsG_from (f := step (V := Nat)) (G := Consistent) spawn
    [.execute, .cancel (some ⟨.given 1, .cancellation⟩) false, .suspend, .await,
      .cancel (some ⟨.given 1, .cancellation⟩) false, .switchIn,
      .finish (.throws ⟨.given 1, .cancellation⟩), .await]
    (P := fun s => s.finished = true ∧ s.got.length = 2) (by decide +kernel)
  exact ⟨s, hf, hl, outcome_is_stable Nat s hr hf⟩

/-- **Where the condition fails.** A step that finishes the coroutine against the
condition gives every suspended call an outcome that no later call obtains. -/
theorem awaiter_differs (hrun : s.finished = true → s.running = false) (hopen : s.finished = false)
    (hst : step s l = some s') (hfin : s'.finished = true) (hcons : ¬ Consistent s l) {call : Nat}
    (hc : call ∈ s.awaiters) : ∃ o, (call, o) ∈ s'.got ∧ replay s' ≠ some o := by
  cases step_move hrun hst with
  | quiet hq =>
    rw [hq.finished, hopen] at hfin
    cases hfin
  | await => grind [await]
  | leave _ =>
    have : s.finished = true := hfin
    rw [hopen] at this
    cases this
  | @ends _ t _ hx ha hg hl' hc' =>
    refine ⟨outcome t.result (settle (pending s l) t.exception).1, ?_, fun h => ?_⟩
    · exact List.mem_append_right _ (List.mem_map.2 ⟨call, ha ▸ hc, rfl⟩)
    · have hne := settle_of_not_consistent hcons
      have heq := Option.some.inj h
      change outcome t.result (settle (pending s l) t.exception).2 = _ at heq
      rw [hx] at heq
      revert heq hne
      generalize (settle (pending s l) s.exception) = p
      obtain ⟨p1, p2⟩ := p
      intro hne heq
      apply hne
      cases p1 <;> cases p2 <;> simp_all [outcome]

end PhpAsync.L2.Coroutine
