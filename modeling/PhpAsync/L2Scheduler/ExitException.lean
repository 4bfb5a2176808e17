import PhpAsync.L2Scheduler.Context
import PhpAsync.L2Scheduler.Fibers

/-!
# No error is lost

Where the scheduler looks for an exception it finds one that nobody has handled. Such an
exception, and each deadlock error, goes into the exit exception, or it is put aside while
`finally_shutdown` executes what is left in the queue, and it is to come out at the end of the
main flow.

**Hypotheses** (`Tidy`).
* The exit exception is empty when an exception starts the graceful shutdown, which replaces
  it.
* An exception during the shutdown finds an exit exception, and the cancellations that
  follow raise nothing: otherwise what is pending is thrown into the coroutine that is
  executed next.
* A fiber that is not the scheduler has put nothing aside when `finally_shutdown` switches to
  another fiber: it may never get control again.
* A shutdown that is started while the scheduler ends raises nothing: the exit exception has
  been read.

**Results.**
* `kept_inductive`: each of these exceptions is in the exit exception, or put aside, or is
  pending where it will be collected.
* `no_error_lost`: when the main flow ends, all of them are in the chain of its exception.
-/
namespace PhpAsync.L2.Scheduler

open PhpAsync.Core Function

/-! ## Points -/

/-- What `execute_queued_coroutines` has put aside. -/
def Stack.saved : Stack → List Nat
  | .host _ (.final saved .loop) | .host _ (.final saved .away) | .host _ (.final saved (.finalize _ _ _)) => saved
  | _ => []

/-- In `finally_shutdown`. -/
def Stack.final : Stack → Bool
  | .host _ (.final _ _) => true
  | _ => false

/-- In the microtasks of `finally_shutdown`: what was put aside is pending. -/
def Stack.merges : Stack → Bool
  | .host _ (.final _ (.micro _)) => true
  | _ => false

/-- The scheduler ends. -/
def Stack.ending : Stack → Bool
  | .host _ (.drains _) | .host _ (.last _ _) => true
  | _ => false

theorem Stack.saved_of_final {z : Stack} (hz : z.final = false) : z.saved = [] := by
  cases z with
  | host h w => cases w <;> first | rfl | cases hz
  | fresh | code | poll | finish | ended => rfl

theorem Stack.merges_of_final {z : Stack} (hz : z.final = false) : z.merges = false := by
  cases z with
  | host h w => cases w <;> first | rfl | cases hz
  | fresh | code | poll | finish | ended => rfl

/-! ## Chains -/

variable {a e saved : List Nat}

theorem mem_setPrevious {p : List Nat} {n : Nat} : n ∈ setPrevious e p ↔ n ∈ e ∨ n ∈ p := by
  unfold setPrevious
  split
  · rename_i he
    simp [he]
  · exact List.mem_append

theorem setPrevious_ne_nil (he : e ≠ []) (p : List Nat) : setPrevious e p ≠ [] := by
  unfold setPrevious
  split
  · exact he
  · exact fun hn => he (List.append_eq_nil_iff.1 hn).1

/-! ## Between two points -/

/-- Nothing is lost, whatever fiber gets control. -/
structure Parked (s : St) : Prop where
  seen : ∀ e ∈ s.seen, e ∈ s.exit ∨ e ∈ (s.stack 1).saved
  final : ∀ f, (s.stack f).final = true → s.exit ≠ []
  result : s.result = none

/-- Nothing is lost when the fiber that has control goes to another point. -/
structure Held (s : St) : Prop where
  seen : ∀ e ∈ s.seen, e ∈ s.exit ∨ s.run ≠ 1 ∧ e ∈ (s.stack 1).saved
  final : ∀ f, f ≠ s.run → (s.stack f).final = true → s.exit ≠ []
  result : s.result = none

/-- The invariant. -/
structure Kept (s : St) : Prop where
  seen : ∀ e ∈ s.seen, e ∈ s.exit ∨ e ∈ (s.stack 1).saved ∨ e ∈ (s.stack s.run).saved ∨
    (s.stack s.run).merges = true ∧ e ∈ s.exception
  final : ∀ f, (s.stack f).final = true → s.exit ≠ []
  ending : (s.stack s.run).ending = true → s.run = 1
  last : ∀ h e b, s.stack s.run = .host h (.last e b) → e = s.exit
  result : s.result = none

/-- In `finally_shutdown`: `a` is what the fiber that has control has put aside. -/
structure Aside (s : St) (a : List Nat) : Prop where
  seen : ∀ e ∈ s.seen, e ∈ s.exit ∨ (s.run ≠ 1 ∧ e ∈ (s.stack 1).saved) ∨ e ∈ a
  exit : s.exit ≠ []
  result : s.result = none

section Held

variable {s t u : St} {z : Stack} {h : Host} {w : Work} {l : Loop} {x : Choice} {c d g : Nat}

theorem Kept.held (hk : Kept s) (hz : (s.stack s.run).final = false) : Held s where
  seen e he := by grind [Stack.saved_of_final, Stack.merges_of_final, hk.seen]
  final f _ := hk.final f
  result := hk.result

/-- What a function does before it changes control. -/
theorem Held.data (hh : Held s)
    (he : (t.seen, t.exit, t.run, t.stack, t.result) = (s.seen, s.exit, s.run, s.stack, s.result)) : Held t := by
  simp only [Prod.mk.injEq] at he
  obtain ⟨hseen, hexit, hrun, hstack, hresult⟩ := he
  exact {
    seen e he := by
      rw [hexit, hrun, hstack]
      exact hh.seen e (hseen ▸ he)
    final f := by
      rw [hexit, hrun, hstack]
      exact hh.final f
    result := hresult.trans hh.result }

theorem Held.put (hh : Held s) (hz : z.final = true → s.exit ≠ []) : Parked (s.setStack s.run z) where
  seen e he := by
    rcases hh.seen e he with hx | ⟨h1, hx⟩
    · exact .inl hx
    · rw [St.setStack_stack, update_of_ne (Ne.symm h1)]
      exact .inr hx
  final f hf := by
    rw [St.setStack_stack] at hf
    by_cases hfr : f = s.run
    · rw [hfr, update_self] at hf
      exact hz hf
    · rw [update_of_ne hfr] at hf
      exact hh.final f hfr hf
  result := hh.result

theorem Parked.kept (hp : Parked s) (hz : (s.stack s.run).ending = false) : Kept s where
  seen e he := (hp.seen e he).imp_right .inl
  final := hp.final
  ending hn := by
    rw [hz] at hn
    cases hn
  last h e b hs := by
    rw [hs] at hz
    cases hz
  result := hp.result

theorem Held.setStack (hh : Held s) (hz : z.final = true → s.exit ≠ []) (hn : z.ending = false) :
    Kept (s.setStack s.run z) :=
  (hh.put hz).kept (by simpa using hn)

/-- `execute_queued_coroutines` goes on. -/
theorem Parked.collect (hp : Parked s) (hs : s.stack s.run = .host h (.final saved .away)) :
    Kept (collect s s.run h saved) where
  seen e he := by
    simp only [Scheduler.collect, St.setStack_stack, St.setStack_run, St.setStack_exit, update_self, Stack.saved]
    rcases List.mem_append.1 he with he | he
    · rcases hp.seen e he with hx | hx
      · exact .inl hx
      · by_cases h1 : s.run = 1
        · rw [← h1, hs] at hx
          exact .inr (.inr (.inl (List.mem_append_right _ hx)))
        · rw [update_of_ne (Ne.symm h1)]
          exact .inr (.inl hx)
    · exact .inr (.inr (.inl (List.mem_append_left _ he)))
  final f hf := hp.final s.run (by rw [hs]; rfl)
  ending hn := by
    simp [Scheduler.collect, Stack.ending] at hn
  last h' e b hs' := by
    simp [Scheduler.collect] at hs'
  result := hp.result

/-- Control goes to another fiber. -/
theorem Parked.move (hp : Parked s) (g : Nat) (e : Option Nat) : Parked { s with run := g, current := e } :=
  ⟨hp.seen, hp.final, hp.result⟩

theorem Parked.toScheduler (hp : Parked s) (hz : (s.stack s.run).ending = false) : Kept (toScheduler s) := by
  have hm := hp.move 1 (some 1)
  have htop : (s.stack 1).saved = [] → ∀ z : Stack, (z.final = true → s.exit ≠ []) → z.ending = false →
      Kept ({ s with run := 1, current := some 1 }.setStack 1 z) := by
    intro hs z hf he
    have hh : Held { s with run := 1, current := some 1 } := by
      refine ⟨fun e he => .inl ?_, fun f _ => hp.final f, hp.result⟩
      rcases hp.seen e he with hx | hx
      · exact hx
      · rw [hs] at hx
        cases hx
    exact hh.setStack hf he
  unfold Scheduler.toScheduler
  split
  · rename_i hs
    exact htop (by rw [hs]; rfl) _ nofun rfl
  · rename_i l hs
    exact htop (by rw [hs]; rfl) _ nofun rfl
  · rename_i l saved hs
    exact Parked.collect (s := { s with run := 1, current := some 1 }) hm hs
  · exact hp.kept hz

theorem Held.leave (hh : Held s) (hz : z.final = true → s.exit ≠ []) (hn : z.ending = false) :
    Kept (Scheduler.toScheduler (s.setStack s.run z)) :=
  (hh.put hz).toScheduler (by simpa using hn)

/-- A fiber other than the scheduler goes to another point. -/
theorem Parked.setOther (hp : Parked s) (hg : g ≠ 1) (hz : z.final = false) : Parked (s.setStack g z) where
  seen e he := by
    rw [St.setStack_stack, update_of_ne (Ne.symm hg)]
    exact hp.seen e he
  final f hf := by
    rw [St.setStack_stack] at hf
    by_cases hfg : f = g
    · rw [hfg, update_self, hz] at hf
      cases hf
    · rw [update_of_ne hfg] at hf
      exact hp.final f hf
  result := hp.result

/-- Only the tables, the statuses, the counters and the pending exception are other ones. -/
theorem Parked.data (hp : Parked s) (he : (t.seen, t.exit, t.stack, t.result) = (s.seen, s.exit, s.stack, s.result))
    : Parked t := by
  simp only [Prod.mk.injEq] at he
  obtain ⟨hseen, hexit, hstack, hresult⟩ := he
  exact {
    seen e he := by
      rw [hexit, hstack]
      exact hp.seen e (hseen ▸ he)
    final f := by
      rw [hexit, hstack]
      exact hp.final f
    result := hresult.trans hp.result }

/-- The fiber that has control goes to another point, and other things change. -/
theorem Held.goTo (hh : Held s) (hz : z.final = false) (hn : z.ending = false)
    (he : (t.seen, t.exit, t.run, t.stack, t.result) = (s.seen, s.exit, s.run, update s.stack s.run z, s.result))
    : Kept t := by
  simp only [Prod.mk.injEq] at he
  obtain ⟨hseen, hexit, hrun, hstack, hresult⟩ := he
  have hset : Parked (s.setStack s.run z) := hh.put fun hf => by rw [hz] at hf; cases hf
  refine (hset.data (by rw [hseen, hexit, hstack, hresult]; rfl)).kept ?_
  rw [hstack, hrun, update_self]
  exact hn

theorem Held.begin (hh : Held s) (d : Nat) (l : Loop) (x : Choice) : Kept (begin s d l x) :=
  hh.goTo (z := .code _ _) rfl rfl rfl

theorem Held.wake (hh : Held s) (c : Nat) (saved : List Nat) (l : Option Loop) (x : Choice) :
    Kept (wake s c saved l x) := by
  unfold Scheduler.wake
  split <;> exact hh.goTo (z := .code _ _) rfl rfl rfl

theorem Parked.held (hp : Parked s) (h1 : s.run ≠ 1) : Held s :=
  ⟨fun e he => (hp.seen e he).imp_right fun hx => ⟨h1, hx⟩, fun f _ => hp.final f, hp.result⟩

theorem Parked.arrive (hp : Parked s) (hz : (s.stack s.run).ending = false) (hg : g ≠ 1) (x : Choice) :
    Kept (arrive s g x) := by
  have hm : Parked { s with run := g } := ⟨hp.seen, hp.final, hp.result⟩
  unfold Scheduler.arrive
  split
  · exact (hm.held hg).begin _ _ x
  · exact (hm.held hg).wake _ _ _ x
  · refine Parked.toScheduler (hm.setOther hg rfl) ?_
    simp [Stack.ending]
  · rename_i h saved hs
    exact Parked.collect (s := { s with run := g }) hm hs
  · exact ((hm.held hg).data (t := give { s with run := g } g _) rfl).begin _ _ x
  · exact ((hm.held hg).data (t := give { s with run := g } g _) rfl).begin _ _ x
  · exact hp.kept hz

theorem Owned.fiber_ne_one (ho : Owned s) (hd : d ≠ 1) (hg : (s.co d).fiber = some g) : g ≠ 1 := by
  rintro rfl
  exact hd (ho.fiber_inj hg ho.one)

theorem Owned.pool_ne_one (ho : Owned s) (hg : g ∈ s.pool) : g ≠ 1 := by
  rintro rfl
  exact ho.pool_unowned hg ho.one

/-- A coroutine from the queue gets control. -/
theorem Parked.switchTo (hp : Parked t) (hz : (t.stack t.run).ending = false) (ho : Owned s) (hd : d ≠ 1)
    (hco : t.co = s.co) (hpool : t.pool = s.pool) (hfibers : t.fibers = s.fibers) (x : Choice) : Kept (switchTo t d x) := by
  unfold Scheduler.switchTo
  split
  · rename_i g hg
    rw [hco] at hg
    exact Parked.arrive (s := { t with current := some d }) (hp.data rfl) hz (ho.fiber_ne_one hd hg) x
  split
  · rename_i g p hpl
    have hmem : g ∈ s.pool := by
      rw [← hpool, hpl]
      exact List.mem_cons_self
    refine Parked.arrive (hp.data ?_) ?_ (ho.pool_ne_one hmem) x
    · rfl
    · exact hz
  · have h1 : t.fibers ≠ 1 := by
      have htwo := ho.two
      omega
    refine Parked.arrive (hp.data ?_) ?_ h1 x
    · rfl
    · exact hz

/-! ## Functions -/

theorem Held.exitFiber (hh : Held s) (l : Loop) : Kept (exitFiber s l) := by
  unfold Scheduler.exitFiber
  split
  · rename_i h1
    rw [← h1]
    have hp := hh.put (z := .host (.loop l) (.drains 8)) nofun
    refine ⟨fun e he => (hp.seen e he).imp_right .inl, hp.final, fun _ => h1, fun h e b hs => ?_, hp.result⟩
    simp at hs
  · exact hh.leave nofun rfl

theorem Held.cancelAll (hh : Held s) (force : Bool) (x : Choice) : Held (cancelAll s force x) := by
  have hall : ∀ cs : List Nat, SameRest { s with context := true } (cs.foldl (cancelDeadlocked force) { s with context := true }) :=
    fun cs => .foldl (cancelDeadlocked_rest force) cs _
  refine hh.data ?_
  simp only [Prod.mk.injEq]
  exact ⟨(hall _).seen, (hall _).exit, (cancelAll_control s force x).run, (cancelAll_control s force x).stack, (hall _).result⟩

/-- The deadlock error goes into the exit exception. -/
theorem Held.reportDeadlock (hh : Held s) (x : Choice) : Held (reportDeadlock s x) where
  seen e he := by
    simp only [Scheduler.reportDeadlock, mem_setPrevious]
    rcases List.mem_append.1 he with he | he
    · exact (hh.seen e he).imp_left .inr
    · exact .inl (.inl he)
  final _ _ _ := setPrevious_ne_nil (List.cons_ne_nil _ _) _
  result := hh.result

/-! ## The graceful shutdown -/

theorem cancelQueued_errors (s : St) (x : Choice) :
    (cancelQueued s x).seen = s.seen ∧ (cancelQueued s x).exit = s.exit ∧ (cancelQueued s x).result = s.result := by
  have hall : SameRest { s with context := true } (s.registry.foldl cancelOne { s with context := true }) :=
    .foldl cancelOne_rest _ _
  exact ⟨hall.seen, hall.exit, hall.result⟩

/-- The shutdown starts: what is pending replaces the exit exception, and what the
cancellations raise comes before it. -/
theorem startShutdown_errors (hs : s.shutdown = false) (x : Choice) :
    (startShutdown s x).seen = s.seen ++ x.raised ∧ (startShutdown s x).result = s.result ∧
      (startShutdown s x).exit =
        if x.raised = [] then (if s.exception = [] then s.exit else s.exception)
        else setPrevious x.raised (if s.exception = [] then s.exit else s.exception) := by
  unfold startShutdown
  rw [if_neg (by simp [hs])]
  dsimp only
  generalize hb : (if s.exception = [] then s.exit else s.exception) = base
  obtain ⟨hseen, hexit, hresult⟩ := cancelQueued_errors { s with shutdown := true, exit := base, exception := [] } x
  have he : (cancelQueued { s with shutdown := true, exit := base, exception := [] } x).exception = x.raised :=
    List.append_nil _
  rw [he]
  split
  · rename_i hr
    rw [hr, List.append_nil]
    exact ⟨hseen, hresult, hexit⟩
  · rw [hexit, hseen]
    exact ⟨rfl, hresult, rfl⟩

theorem Held.handle (hh : Held s) (hg : s.shutdown = true → s.exception = []) (he : s.exception ≠ [] → s.exit = [])
    (x : Choice) : Held (handle s x) := by
  have hsame := handle_control s x
  unfold Scheduler.handle at hsame ⊢
  split
  · exact hh
  rename_i hne
  rw [if_neg hne] at hsame
  have hs : s.shutdown = false := by grind
  obtain ⟨hseen, hresult, hexit⟩ := startShutdown_errors (s := { s with seen := s.seen ++ s.exception }) hs x
  rw [if_neg hne] at hexit
  have hmem : ∀ n, n ∈ (startShutdown { s with seen := s.seen ++ s.exception } x).exit ↔ n ∈ x.raised ∨ n ∈ s.exception := by
    intro n
    rw [hexit]
    split
    · rename_i hr
      simp [hr]
    · exact mem_setPrevious
  refine ⟨fun n hn => ?_, fun f hf hfin => absurd (he hne) (hh.final f (by rw [← hsame.run]; exact hf) ?_), hresult.trans hh.result⟩
  · rw [hmem, hsame.run, hsame.stack]
    rw [hseen, List.mem_append, List.mem_append] at hn
    rcases hn with (hn | hn) | hn
    · rcases hh.seen n hn with hx | hx
      · rw [he hne] at hx
        cases hx
      · exact .inr hx
    · exact .inl (.inr hn)
    · exact .inl (.inl hn)
  · rw [← hsame.stack]
    exact hfin

/-- An exception during the shutdown goes into the exit exception. -/
theorem Held.guarded (hh : Held s) (he : s.exception ≠ []) (hne : s.exit ≠ []) (hraised : x.raised = []) (h : Host) :
    Kept ((finallyShutdown s x).setStack (finallyShutdown s x).run (.host h (.final [] .loop))) := by
  have hsame := finallyShutdown_control s x
  have hexit : (finallyShutdown s x).exit = setPrevious s.exception s.exit ∧
      (finallyShutdown s x).seen = s.seen ++ s.exception ∧ (finallyShutdown s x).result = s.result := by
    unfold finallyShutdown
    dsimp only
    rw [if_neg (by simp [hne, he])]
    obtain ⟨hseen, hexit, hresult⟩ := cancelQueued_errors { s with
      seen := s.seen ++ s.exception ++ x.raised, exit := setPrevious s.exception s.exit, exception := [] } x
    rw [hseen, hexit, hresult, hraised]
    exact ⟨rfl, List.append_nil _, rfl⟩
  have hne' : (finallyShutdown s x).exit ≠ [] := by
    rw [hexit.1]
    exact setPrevious_ne_nil he _
  have hhf : Held (finallyShutdown s x) := by
    refine ⟨fun n hn => ?_, fun _ _ _ => hne', hexit.2.2.trans hh.result⟩
    rw [hexit.1, mem_setPrevious, hsame.run, hsame.stack]
    rw [hexit.2.1, List.mem_append] at hn
    rcases hn with hn | hn
    · exact (hh.seen n hn).imp_left .inr
    · exact .inl (.inl hn)
  exact hhf.setStack (fun _ => hne') rfl

/-! ### In `finally_shutdown` -/

theorem Kept.aside (hk : Kept s) (hs : s.stack s.run = z) (hz : z.final = true)
    (hsub : ∀ e, e ∈ z.saved ∨ z.merges = true ∧ e ∈ s.exception → e ∈ a) : Aside s a where
  seen e he := by grind [hk.seen]
  exit := hk.final s.run (hs ▸ hz)
  result := hk.result

/-- Outside of its microtasks. -/
theorem Kept.aside_saved (hk : Kept s) {p : Final} (hs : s.stack s.run = .host h (.final saved p))
    (hp : (Stack.host h (.final saved p)).merges = false) : Aside s saved := by
  refine hk.aside hs rfl fun e he => ?_
  rw [hp] at he
  cases p with
  | micro b => cases hp
  | loop | away | finalize => exact he.resolve_right nofun

theorem Kept.aside_pending (hk : Kept s) {b : Bool} (hs : s.stack s.run = .host h (.final saved (.micro b))) :
    Aside s s.exception :=
  hk.aside hs rfl fun _ he => (he.resolve_left List.not_mem_nil).2

theorem Aside.data (ha : Aside s a)
    (he : (t.seen, t.exit, t.run, t.stack, t.result) = (s.seen, s.exit, s.run, s.stack, s.result)) : Aside t a := by
  simp only [Prod.mk.injEq] at he
  obtain ⟨hseen, hexit, hrun, hstack, hresult⟩ := he
  exact {
    seen e he := by
      rw [hexit, hrun, hstack]
      exact ha.seen e (hseen ▸ he)
    exit := hexit ▸ ha.exit
    result := hresult.trans ha.result }

/-- The fiber goes to another point of `finally_shutdown`. -/
theorem Aside.kept (ha : Aside s a) (hz : z.final = true)
    (hsub : ∀ e ∈ a, e ∈ z.saved ∨ z.merges = true ∧ e ∈ s.exception) : Kept (s.setStack s.run z) where
  seen e he := by
    simp only [St.setStack_stack, St.setStack_run, St.setStack_exit, St.setStack_exception, update_self]
    rcases ha.seen e he with hx | ⟨h1, hx⟩ | hx
    · exact .inl hx
    · rw [update_of_ne (Ne.symm h1)]
      exact .inr (.inl hx)
    · exact .inr (.inr (hsub e hx))
  final _ _ := ha.exit
  ending hn := by
    rw [St.setStack_stack, St.setStack_run, update_self] at hn
    cases z with
    | host h w =>
      cases w with
      | final saved p => cases hn
      | _ => cases hz
    | fresh | code | poll | finish | ended => cases hz
  last h e b hs := by
    rw [St.setStack_stack, St.setStack_run, update_self] at hs
    rw [hs] at hz
    cases hz
  result := ha.result

theorem Aside.collect (ha : Aside s a) (hsub : ∀ e ∈ a, e ∈ saved) (h : Host) : Kept (collect s s.run h saved) := by
  have hc : Aside { s with exception := [], seen := s.seen ++ s.exception } (s.exception ++ saved) := by
    refine ⟨fun e he => ?_, ha.exit, ha.result⟩
    rcases List.mem_append.1 he with he | he
    · rcases ha.seen e he with hx | hx | hx
      · exact .inl hx
      · exact .inr (.inl hx)
      · exact .inr (.inr (List.mem_append_right _ (hsub e hx)))
    · exact .inr (.inr (List.mem_append_left _ he))
  exact hc.kept (z := .host h (.final (s.exception ++ saved) .loop)) rfl fun e he => .inl he

/-- The scheduler may switch away, and so may a fiber that has put nothing aside. -/
theorem Aside.away (ha : Aside s saved) (h1 : s.run = 1 ∨ saved = []) (h : Host) :
    Parked (s.setStack s.run (.host h (.final saved .away))) where
  seen e he := by
    rw [St.setStack_stack]
    rcases ha.seen e he with hx | ⟨hne, hx⟩ | hx
    · exact .inl hx
    · rw [update_of_ne (Ne.symm hne)]
      exact .inr hx
    · rcases h1 with h1 | h1
      · rw [h1, update_self]
        exact .inr hx
      · rw [h1] at hx
        cases hx
  final _ _ := ha.exit
  result := ha.result

/-- At the end what is pending goes into the exit exception. -/
theorem Aside.finalMerge (ha : Aside s s.exception) (x : Choice) (hf : ∀ f, f ≠ s.run → (s.stack f).final = true → s.exit ≠ []) :
    Held (finalMerge s x) := by
  unfold Scheduler.finalMerge
  split
  · rename_i hn
    have he : s.exception = [] := hn.resolve_right ha.exit
    refine ⟨fun e hm => ?_, hf, ha.result⟩
    rw [he, List.append_nil] at hm
    rcases ha.seen e hm with hx | hx | hx
    · exact .inl hx
    · exact .inr hx
    · rw [he] at hx
      cases hx
  · rename_i hn
    have hne : s.exception ≠ [] := fun he => hn (.inl he)
    refine ⟨fun e hm => ?_, fun _ _ _ => setPrevious_ne_nil hne _, ha.result⟩
    rw [mem_setPrevious]
    rcases List.mem_append.1 hm with hm | hm
    · rcases ha.seen e hm with hx | hx | hx
      · exact .inl (.inr hx)
      · exact .inr hx
      · exact .inl (.inl hx)
    · exact .inl (.inl hm)

/-! ## Runs -/

/-- The end of the scheduler. -/
structure Rethrown (s : St) : Prop where
  result : ∃ r, s.result = some r ∧ ∀ e ∈ s.seen, e ∈ r
  gone : s.stack s.run = .fresh

theorem finishScheduler_errors (s : St) : (finishScheduler s s.exit).seen = s.seen ++ s.exception ∧
    ∃ r, (finishScheduler s s.exit).result = some r ∧ ∀ n, n ∈ s.exception ∨ n ∈ s.exit → n ∈ r := by
  unfold finishScheduler
  dsimp only
  split
  · rename_i hb
    refine ⟨rfl, _, rfl, fun n hn => ?_⟩
    simp only [ne_eq, not_true_eq_false, false_and, if_false, setPrevious_ne_nil hb.1, not_false_eq_true, if_true]
    exact mem_setPrevious.2 hn
  split
  · grind
  · grind

theorem Kept.finishScheduler (hk : Kept s) {b : Bool} (hs : s.stack s.run = .host h (.last e b)) :
    Rethrown (finishScheduler (s.setStack s.run .fresh) e) := by
  have h1 : s.run = 1 := hk.ending (by rw [hs]; rfl)
  obtain rfl : e = s.exit := hk.last h e b hs
  have hh : Held s := hk.held (by rw [hs]; rfl)
  obtain ⟨hseen, r, hr, hall⟩ := finishScheduler_errors (s.setStack s.run .fresh)
  refine ⟨⟨r, hr, fun n hn => hall n ?_⟩, finishScheduler_fresh s _⟩
  rw [show (Scheduler.finishScheduler (s.setStack s.run .fresh) s.exit).seen = s.seen ++ s.exception from hseen] at hn
  rcases List.mem_append.1 hn with hn | hn
  · exact .inr ((hh.seen n hn).resolve_right fun hx => hx.1 h1)
  · exact .inl hn

/-- Handling points. -/
def Stack.handling : Stack → Bool
  | .host _ .heartbeat | .host _ (.micro _) | .host _ .reactor | .host _ .top | .host _ (.after _) => true
  | _ => false

/-- `execute_queued_coroutines` takes the next entry. -/
def Stack.executes : Stack → Bool
  | .host _ (.final _ .loop) => true
  | _ => false

def Stack.isLast : Stack → Bool
  | .host _ (.last _ _) => true
  | _ => false

/-- What the cancellations of a step raise. -/
def Lbl.raised : Lbl → List Nat
  | .go x | .op (.shutdown x) => x.raised
  | _ => []

/-- The scheduler finds an exception. -/
def finds (s : St) (l : Lbl) : Bool := l.goes && (s.stack s.run).handling && decide (s.exception ≠ [])

/-- See the module doc. -/
def Tidy (s : St) (l : Lbl) : Prop :=
  (finds s l = true → s.shutdown = false → s.exit = []) ∧
  (finds s l = true → s.shutdown = true → s.exit ≠ [] ∧ l.raised = []) ∧
  ((s.stack s.run).executes = true → s.run = 1 ∨ (s.stack s.run).saved = [] ∨ s.queue = []) ∧
  ((s.stack s.run).isLast = true → l.goes = false → l.raised = [])

instance (s : St) (l : Lbl) : Decidable (Tidy s l) := inferInstanceAs (Decidable (_ ∧ _ ∧ _ ∧ _))

/-- The scheduler goes on to end. -/
theorem Held.setEnding (hh : Held s) (h1 : s.run = 1) (hz : z.final = false)
    (hl : ∀ h e b, z = .host h (.last e b) → e = s.exit) : Kept (s.setStack s.run z) := by
  have hp := hh.put (z := z) fun hf => by rw [hz] at hf; cases hf
  refine ⟨fun e he => (hp.seen e he).imp_right .inl, hp.final, fun _ => h1, fun h e b hs => ?_, hp.result⟩
  rw [St.setStack_stack, St.setStack_run, update_self] at hs
  exact hl h e b hs

/-- Foreign code keeps what is pending, and only a shutdown touches the exit exception. -/
theorem act_errors {o : Op} (ha : act s o = some t) :
    (∀ n ∈ s.exit, n ∈ t.exit) ∧ (∀ n ∈ t.seen, n ∈ s.seen ∨ n ∈ t.exit) ∧ (∀ n ∈ s.exception, n ∈ t.exception) ∧
      t.result = s.result ∧ ((Lbl.op o).raised = [] → t.exit = s.exit) := by
  have hsame : SameRest s t → (∀ n ∈ s.exit, n ∈ t.exit) ∧ (∀ n ∈ t.seen, n ∈ s.seen ∨ n ∈ t.exit) ∧
      (∀ n ∈ s.exception, n ∈ t.exception) ∧ t.result = s.result ∧ ((Lbl.op o).raised = [] → t.exit = s.exit) :=
    fun h => ⟨fun _ hn => h.exit ▸ hn, fun _ hn => .inl (h.seen ▸ hn), fun _ hn => h.exception ▸ hn, h.result,
      fun _ => h.exit⟩
  cases o with
  | resume c e =>
    obtain ⟨-, ⟨⟩⟩ := Option.ite_none_right_eq_some.1 ha
    unfold resume
    split
    · exact ⟨fun _ hn => hn, fun _ hn => .inl hn, fun _ hn => List.mem_cons_of_mem _ hn, rfl, fun _ => rfl⟩
    split
    · exact ⟨fun _ hn => hn, fun _ hn => .inl hn, fun _ hn => hn, rfl, fun _ => rfl⟩
    split <;> exact ⟨fun _ hn => hn, fun _ hn => .inl hn, fun _ hn => hn, rfl, fun _ => rfl⟩
  | cancel c safely =>
    obtain ⟨-, ⟨⟩⟩ := Option.ite_none_right_eq_some.1 ha
    exact hsame (cancel_rest s c safely)
  | enqueue c =>
    obtain ⟨-, ⟨⟩⟩ := Option.ite_none_right_eq_some.1 ha
    exact hsame (enqueue_rest s c)
  | shutdown x =>
    obtain ⟨he, ⟨⟩⟩ := Option.ite_none_right_eq_some.1 ha
    cases hs : s.shutdown with
    | true => grind [startShutdown]
    | false =>
      obtain ⟨hseen, hresult, hexit⟩ := startShutdown_errors hs x
      rw [if_pos he] at hexit
      rw [hseen, hresult, hexit, he]
      refine ⟨fun n hn => ?_, fun n hn => ?_, fun n hn => absurd hn List.not_mem_nil, rfl, fun hr => if_pos hr⟩
      · split
        · exact hn
        · exact mem_setPrevious.2 (.inr hn)
      · rcases List.mem_append.1 hn with hn | hn
        · exact .inl hn
        · rw [if_neg (List.ne_nil_of_mem hn)]
          exact .inr (mem_setPrevious.2 (.inl hn))
  | throw e => grind [act, Lbl.raised]
  | create | spawn front | microtask | startEvent | stopEvent =>
    cases ha
    exact ⟨fun _ hn => hn, fun _ hn => .inl hn, fun _ hn => hn, rfl, fun _ => rfl⟩

theorem Kept.act (hk : Kept s) {o : Op} (htidy : Tidy s (.op o)) (ha : act s o = some t) : Kept t := by
  have hsame := act_control ha
  obtain ⟨hexit, hseen, hexc, hresult, hquiet⟩ := act_errors ha
  have hpoint : t.stack t.run = s.stack s.run := by rw [hsame.stack, hsame.run]
  refine ⟨fun n hn => ?_, fun f hf => ?_, fun hn => ?_, fun h e b hs => ?_, hresult.trans hk.result⟩
  · grind [hsame.stack, hk.seen]
  · rw [hsame.stack] at hf
    obtain ⟨n, hn⟩ := List.exists_mem_of_ne_nil _ (hk.final f hf)
    exact List.ne_nil_of_mem (hexit n hn)
  · rw [hsame.run]
    exact hk.ending (hpoint ▸ hn)
  · rw [hpoint] at hs
    rw [hquiet (htidy.2.2.2 (by rw [hs]; rfl) rfl)]
    exact hk.last h e b hs

/-- What a tick or loop has kept before control changes. -/
def Way.Holds (h : Host) (u : St) : Way → Prop
  | .point w => Kept (u.setStack u.run (.host h w))
  | .entry _ (some saved) => Aside u saved ∧ (u.run = 1 ∨ saved = [])
  | .next saved => Aside u saved ∧ (u.run = 1 ∨ saved = [] ∨ u.queue = [])
  | .collect saved => Aside u saved
  | _ => Held u

theorem Pre.holds {h' : Host} {m : Way} (hk : Kept s) (htidy : Tidy s (.go x)) (hs : s.stack s.run = .host h w)
    (hp : Pre s x h w h' m u) : m.Holds h' u := by
  have hheld : (Stack.host h w).final = false → Held s := fun hf => hk.held (hs ▸ hf)
  have hfinds : (Stack.host h w).handling = true → s.exception ≠ [] → finds s (.go x) = true := fun hp he => by
    simp [finds, Lbl.goes, hs, hp, he]
  have hhandle : (Stack.host h w).final = false → (Stack.host h w).handling = true →
      (s.shutdown = true → s.exception = []) → ∀ t : St, (t.exception, t.exit, t.shutdown) = (s.exception, s.exit, s.shutdown) →
      Held t → Held (handle t x) := by
    intro hf hp hg t ht hh
    simp only [Prod.mk.injEq] at ht
    refine hh.handle (by rw [ht.1, ht.2.2]; exact hg) (fun he => ?_) x
    rw [ht.1] at he
    rw [ht.2.1]
    exact htidy.1 (hfinds hp he) (Bool.eq_false_iff.2 fun hsh => he (hg hsh))
  induction hp with
  | settled | unstarted | channels | drain => exact (hheld rfl).data rfl
  | waits =>
    have hc : Held { s with context := true } := (hheld rfl).data rfl
    cases x.heartbeat <;> exact hc.setStack nofun rfl
  | @guarded h w hw he hsh =>
    have hp : (Stack.host h w).handling = true ∧ (Stack.host h w).final = false := by
      unfold Work.handling at hw
      split at hw <;> first | exact ⟨rfl, rfl⟩ | cases hw
    obtain ⟨hne, hraised⟩ := htidy.2.1 (hfinds hp.1 he) hsh
    exact (hheld hp.2).guarded he hne hraised h
  | @beat h hg =>
    have hh := hhandle rfl rfl hg s rfl (hheld rfl)
    cases h with
    | suspend c saved k => exact (hh.data (t := processResumed (handle s x) x) rfl).setStack nofun rfl
    | loop l => exact hh.setStack nofun rfl
  | polls hg => exact (hhandle rfl rfl hg s rfl (hheld rfl)).setStack nofun rfl
  | quiet hg => exact (hhandle rfl rfl hg s rfl (hheld rfl)).data rfl
  | @task h w w' hw =>
    have hd : ∀ {a}, Aside s a → Aside { s with microtasks := s.microtasks - 1 } a := fun ha => ha.data rfl
    unfold Work.task at hw
    split at hw <;> cases hw
    · have hc : Held { s with microtasks := s.microtasks - 1 } := (hheld rfl).data rfl
      exact hc.setStack nofun rfl
    · exact (hd (hk.aside_pending hs)).kept rfl fun e he => .inr ⟨rfl, he⟩
    · have hc : Held { s with microtasks := s.microtasks - 1 } := (hheld rfl).data rfl
      exact hc.setEnding (hk.ending (by rw [hs]; rfl)) rfl fun _ _ _ hl => by cases hl; exact hk.last h _ false hs
  | @taskDone h w w' hw =>
    unfold Work.task at hw
    split at hw <;> cases hw
    · exact (hheld rfl).setStack nofun rfl
    · exact (hk.aside_pending hs).kept rfl fun e he => .inr ⟨rfl, he⟩
    · exact (hheld rfl).setEnding (hk.ending (by rw [hs]; rfl)) rfl fun _ _ _ hl => by cases hl; exact hk.last h _ true hs
  | @reactor h hg =>
    cases h with
    | suspend c saved l => exact (hhandle rfl rfl hg s rfl (hheld rfl)).data rfl
    | loop l => exact (hhandle rfl rfl hg (processResumed s x) rfl ((hheld rfl).data rfl)).data rfl
  | report _ hu =>
    subst hu
    have hr : Held (processResumed s x) := (hheld rfl).data rfl
    exact (hr.reportDeadlock x).cancelAll true x
  | @destroy h _ d held aside hw =>
    subst hw
    cases aside with
    | none => exact ((hheld rfl).data (t := s.setStatus d .noStatus) rfl).setStack nofun rfl
    | some saved =>
      have hc : Aside (s.setStatus d .noStatus) saved := (hk.aside_saved hs rfl).data rfl
      exact hc.kept rfl fun e he => .inl he
  | @placed h _ d held _ aside hw hu =>
    subst hw hu
    cases aside with
    | some saved => exact (hk.aside_saved hs rfl).data rfl
    | none =>
      have hc : Held { release s d held x with current := none } := (hheld rfl).data rfl
      cases h with
      | loop l => exact hc.setStack nofun rfl
      | suspend c saved l =>
        unfold Host.behind
        dsimp only
        split <;> exact hc
  | final =>
    have h1 := htidy.2.2.1 (by rw [hs]; rfl)
    rw [hs] at h1
    exact ⟨hk.aside_saved hs rfl, h1⟩
  | merge => exact (hk.aside_pending hs).finalMerge x fun f _ => hk.final f
  | top hg =>
    have hc : Held { handle s x with context := true } := (hhandle rfl rfl hg s rfl (hheld rfl)).data rfl
    cases x.heartbeat <;> exact hc.setStack nofun rfl
  | deadlock hg | again hg => exact hhandle rfl rfl hg s rfl (hheld rfl)
  | drains => exact (hheld rfl).setEnding (hk.ending (by rw [hs]; rfl)) rfl nofun
  | cancelled _ _ ih =>
    have hh : Held _ := ih hs hheld hfinds hhandle
    exact hh.cancelAll false x
  | closes _ ih | lastDrain _ _ ih | nobody _ _ ih =>
    have hh : Held _ := ih hs hheld hfinds hhandle
    exact hh.setStack nofun rfl
  | leaves _ ih | pools _ ih | resumed _ _ ih => exact ih hs hheld hfinds hhandle
  | pop _ _ ih =>
    have hh : Held _ := ih hs hheld hfinds hhandle
    exact hh.data rfl
  | popFinal _ hq ih =>
    obtain ⟨ha, h1⟩ := ih hs hheld hfinds hhandle
    exact ⟨ha.data rfl, h1.imp_right fun h1 => h1.resolve_right (by rw [hq]; nofun)⟩
  | @empty _ _ _ u saved _ ih =>
    obtain ⟨ha, -⟩ := ih hs hheld hfinds hhandle
    have hm : Aside { u with context := true, exception := setPrevious u.exception saved } saved := ha.data rfl
    exact hm.kept rfl fun e he => .inr ⟨rfl, mem_setPrevious.2 (.inr he)⟩

theorem Out.kept {m : Way} (ho : Owned s) (hm : m.Fits h s) (hh : m.Holds h s) (hout : Out s x h m t) : Kept t := by
  cases hout with
  | point => exact hh
  | code => exact Held.goTo (s := s) hh (z := .code _ _) rfl rfl rfl
  | wake | own => exact Held.wake (s := s) hh _ _ _ x
  | away | again => exact Held.leave (s := s) hh nofun rfl
  | top => exact Held.setStack (s := s) hh nofun rfl
  | ends => exact Held.exitFiber (s := s) hh _
  | pools h1 =>
    have hp : Held { s with pool := s.pool ++ [s.run] } := Held.data (s := s) hh rfl
    exact hp.leave nofun rfl
  | collects hc => exact hh.1.collect (fun _ he => he) h
  | collect => exact Aside.collect (s := s) hh (fun _ he => he) h
  | @ignored _ d aside hi =>
    cases aside with
    | none => exact (Held.data (s := s) (t := ignore s d) hh rfl).setStack nofun rfl
    | some saved =>
      have ha : Aside (ignore s d) saved := hh.1.data rfl
      exact ha.kept rfl fun e he => .inl he
  | @switched _ d aside hi =>
    cases aside with
    | none =>
      refine Parked.switchTo (Held.put (s := s) hh (z := .host h .away) nofun) ?_ ho hm rfl rfl rfl x
      simp [Stack.ending]
    | some saved =>
      refine Parked.switchTo (hh.1.away hh.2 h) ?_ ho hm rfl rfl rfl x
      simp [Stack.ending]
  | @begun l d hi h1 hn =>
    have hc : Held { s with current := some d } := Held.data (s := s) hh rfl
    exact hc.begin d _ x
  | mine hg => exact Held.begin (s := s) hh _ _ x
  | @pooled l d g hi h1 hg hne =>
    have hp : Held { s with pool := s.pool ++ [s.run], current := some d } := Held.data (s := s) hh rfl
    refine Parked.arrive (hp.put (z := .host (.loop l) .pooled) nofun) ?_ (ho.fiber_ne_one hm hg) x
    simp [Stack.ending]
  | ended hi h1 hg hne =>
    refine Parked.arrive (Held.put (s := s) hh (z := .fresh) nofun) ?_ (ho.fiber_ne_one hm hg) x
    simp [Stack.ending]

theorem Turn.kept (ho : Owned s) (hk : Kept s) (htidy : Tidy s (.go x)) (hs : s.stack s.run = .host h w)
    (ht : Turn s x h w t) : Kept t ∨ Rethrown t := by
  cases ht with
  | way hp hout =>
    obtain ⟨hu, -, hm⟩ := hp.owned ho hs
    exact .inl (hout.kept hu hm (hp.holds hk htidy hs))
  | drained hh hw =>
    subst hh hw
    have h1 : s.run = 1 := hk.ending (by rw [hs]; rfl)
    have hheld : Held s := hk.held (by rw [hs]; rfl)
    refine .inl (Held.setEnding ⟨fun e he => ?_, fun f hf hfin => ?_, hk.result⟩ h1 rfl fun _ _ _ hl => by cases hl; rfl)
    · exact .inl ((hheld.seen e he).resolve_right fun hx => hx.1 h1)
    · dsimp only at hfin
      split at hfin
      · cases hfin
      · exact hk.final f hfin
  | last hh hw =>
    subst hh hw
    exact .inr (hk.finishScheduler hs)

theorem Kept.call (hk : Kept s) {l : Option Loop} (hs : s.stack s.run = .code c l) (k : Call) : Kept (call s c l k) := by
  have hf := call_frame hs k
  obtain ⟨z, hz, hstack⟩ := hf.stack
  have hh : Held s := hk.held (by rw [hs]; rfl)
  have hplain : z.final = false ∧ z.ending = false := by cases hz <;> exact ⟨rfl, rfl⟩
  exact hh.goTo hplain.1 hplain.2 (by rw [hf.seen, hf.exit, hf.run, hstack, hf.result])

theorem Kept.goFinish (hk : Kept s) {l : Option Loop} {held : List Nat} {late : Bool}
    (hs : s.stack s.run = .finish c l held late) (x : Choice) : Kept (goFinish s c l held late x) := by
  have hh : Held s := hk.held (by rw [hs]; rfl)
  have hr : Held (release s c held x) := hh.data rfl
  unfold Scheduler.goFinish
  split
  · exact hh.goTo (z := .finish c l held true) rfl rfl rfl
  cases l with
  | some l =>
    dsimp only
    split <;> exact hr.setStack nofun rfl
  | none => exact hr.leave nofun rfl

theorem Kept.step {l : Lbl} (ho : Owned s) (hk : Kept s) (htidy : Tidy s l) (hst : step s l = some t) :
    Kept t ∨ Rethrown t := by
  cases step_cases hst with
  | op hf ha => exact .inl (hk.act htidy ha)
  | call hs k => exact .inl (hk.call hs k)
  | turn hs ht => exact ht.kept ho hk htidy hs
  | polled hs =>
    have hh : Held s := hk.held (by rw [hs]; rfl)
    exact .inl (hh.goTo (z := .code _ _) rfl rfl rfl)
  | finish hs => exact .inl (hk.goFinish hs _)

/-- When the scheduler has ended nothing runs any more. -/
theorem Rethrown.step {l : Lbl} (hr : Rethrown s) : step s l ≠ some t := by
  intro hst
  cases step_cases hst with
  | op hf ha => rw [hr.gone] at hf; cases hf
  | call hs k => rw [hr.gone] at hs; cases hs
  | turn hs ht => rw [hr.gone] at hs; cases hs
  | polled hs => rw [hr.gone] at hs; cases hs
  | finish hs => rw [hr.gone] at hs; cases hs

end Held

theorem kept_inductive : (lts.restrict Tidy).Inductive fun s => Owned s ∧ (Kept s ∨ Rethrown s) where
  init s hs := by
    refine ⟨owned_inductive.init s hs, .inl ?_⟩
    rw [show s = start from hs]
    refine ⟨fun _ he => absurd he List.not_mem_nil, fun f hf => ?_, nofun, nofun, rfl⟩
    by_cases h0 : f = 0
    · simp [start, h0, Stack.final] at hf
    · simp [start, h0, Stack.final] at hf
  step s l t h hst := by
    refine ⟨h.1.step hst.2, ?_⟩
    rcases h.2 with hk | hr
    · exact hk.step h.1 hst.1 hst.2
    · exact absurd hst.2 hr.step

/-- **No error is lost.** Under `Tidy`, when the main flow ends, each exception that was
pending at a handling point and each deadlock error is its exception or among the previous
ones of it. -/
theorem no_error_lost (s : St) (hs : (lts.restrict Tidy).Reachable s) (r : List Nat) (hr : s.result = some r) :
    ∀ e ∈ s.seen, e ∈ r := by
  rcases (kept_inductive.reachable s hs).2 with hk | hk
  · rw [hk.result] at hr
    cases hr
  · grind [hk.result]

/-- The main coroutine ends with an exception, which starts the shutdown, and a callback of
the reactor leaves another one. -/
theorem no_error_lost_two :
    ∃ s, (lts.restrict Tidy).Reachable s ∧ s.seen = [5, 6] ∧ s.result = some [6, 5] ∧ ∀ e ∈ s.seen, e ∈ [6, 5] := by
  obtain ⟨s, hs, hseen, hr⟩ := LTS.existsG_from (G := Tidy) (f := step) start
    [.op (.throw 5), .call .finish, .go .quiet, .go { Choice.quiet with rethrown := true }, .go .quiet, .go .quiet,
      .op (.throw 6), .go .quiet, .go .quiet, .go .quiet, .go .quiet, .go .quiet]
    (P := fun s => s.seen = [5, 6] ∧ s.result = some [6, 5]) (by decide +kernel)
  exact ⟨s, hs, hseen, hr, no_error_lost s hs [6, 5] hr⟩

/-- **Counterexample.** A deadlock is reported, and the main coroutine, which is cancelled,
ends with an exception of its own: the shutdown it starts replaces the deadlock error. Or a
shutdown without an exception is on when a microtask fails: the exception is thrown into
the coroutine that is executed next, which catches it. -/
theorem deadlock_error_replaced :
    (∃ s, lts.Reachable s ∧ s.seen = [9, 7] ∧ s.result = some [7]) ∧
    ∃ s, lts.Reachable s ∧ s.seen = [6] ∧ s.result = some [] := by
  constructor
  · exact LTS.exists_from (f := step) start
      [.call (.suspend false false 0), .go .quiet, .go { Choice.quiet with reactor := true }, .go .quiet,
        .go { Choice.quiet with deadlock := 9 }, .go .quiet, .go .quiet,
        -- the main coroutine goes on
        .op (.throw 7), .call .finish, .go .quiet, .go { Choice.quiet with rethrown := true },
        .go .quiet, .go .quiet, .go .quiet] (by decide +kernel)
  · exact LTS.exists_from (f := step) start
      [.op (.spawn false), .call (.suspend true false 0), .go .quiet, .go .quiet,
        .call (.suspend false false 0), .go .quiet, .go .quiet,
        -- the main coroutine starts the shutdown and ends
        .op (.shutdown .quiet), .op .microtask, .call .finish, .go .quiet, .go .quiet, .go .quiet, .go .quiet,
        .op (.throw 6), .go .quiet, .go .quiet,
        -- the other one is executed
        .call .catch_, .call .finish, .go .quiet, .go .quiet, .go .quiet, .go .quiet, .go .quiet,
        .go .quiet, .go .quiet, .go .quiet, .go .quiet] (by decide +kernel)

end PhpAsync.L2.Scheduler
