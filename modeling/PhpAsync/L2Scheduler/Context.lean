import PhpAsync.L2Scheduler.Steps

/-!
# The scheduler context

`ZEND_ASYNC_SCHEDULER_CONTEXT` is to be on while callbacks run (the start of the events of a
waker, the heartbeat handler, microtasks, the reactor) and off while a coroutine does, and a
coroutine that was resumed by a callback is to have its events cleaned before any coroutine
runs.

**Hypotheses** (`Calm`).
* The graceful shutdown is not started by a callback, and the heartbeat handler and the
  microtasks leave no exception that starts it: cancelling the coroutines turns the context
  off, and the tick goes on.
* The last drains of the reactor run no callback: they run with the context off.
* Where the events of a waker fail to start, nobody has been resumed: `resumed_coroutines`
  is not processed there.

**Results.**
* `context_off`: the context is off while a coroutine runs, in every run.
* `context_discipline`: callbacks run with the context on, and while a coroutine runs nobody
  is left in `resumed_coroutines`.
-/
namespace PhpAsync.L2.Scheduler

open PhpAsync.Core

/-! ## Points -/

/-- The context is to be on here. -/
def Stack.inContext : Stack → Bool
  | .poll _ _ => true
  | .host _ w =>
    match w with
    | .starting | .heartbeat | .micro _ | .reactor | .final _ (.micro _) | .last _ _ => true
    | _ => false
  | .fresh | .code _ _ | .finish _ _ _ _ | .ended => false

/-- The last drains of the reactor, for a deadlock and for the end of the scheduler. -/
def Stack.draining : Stack → Bool
  | .host _ .drain | .host _ (.drains _) => true
  | _ => false

/-- Callbacks run here. -/
def Stack.callback (z : Stack) : Bool := z.inContext || z.draining

/-- The code of a coroutine or its finalizer runs here. -/
def Stack.coroutine : Stack → Bool
  | .code _ _ | .finish _ _ _ _ | .host _ (.finalize _ _ _) | .host _ (.final _ (.finalize _ _ _)) => true
  | _ => false

variable {z : Stack}

theorem Stack.arrived_inContext (hz : z.arrived = true) : z.inContext = false := by
  cases z with
  | host h w =>
    cases w with
    | final saved p => cases p <;> first | rfl | cases hz
    | _ => first | rfl | cases hz
  | poll c l => cases hz
  | fresh | code | finish | ended => rfl

theorem Stack.coroutine_inContext (hz : z.coroutine = true) : z.inContext = false ∧ z ≠ .fresh := by
  cases z with
  | host h w =>
    cases w with
    | final saved p => cases p <;> first | exact ⟨rfl, nofun⟩ | cases hz
    | _ => first | exact ⟨rfl, nofun⟩ | cases hz
  | fresh | poll | ended => cases hz
  | code | finish => exact ⟨rfl, nofun⟩

/-! ## Functions -/

/-- Behind a function that is called with the context off. -/
structure Off (s t : St) : Prop where
  context : t.context = false
  point : (t.stack t.run).inContext = false
  resumed : s.resumed = [] → t.resumed = []

section Off

variable {s : St}

theorem finalMerge_context (s : St) (x : Choice) : (finalMerge s x).context = false ∧ (finalMerge s x).resumed = [] := by
  unfold finalMerge
  split <;> exact ⟨rfl, rfl⟩

theorem startShutdown_context (s : St) (x : Choice) :
    (startShutdown s x).context = s.context ∧ (startShutdown s x).resumed = s.resumed ∨
      (startShutdown s x).context = false ∧ (startShutdown s x).resumed = [] := by
  unfold startShutdown
  split
  · exact .inl ⟨rfl, rfl⟩
  dsimp only
  generalize ({ s with shutdown := true, exit := _, exception := [] } : St) = u
  split <;> exact .inr ⟨rfl, rfl⟩

theorem handle_context (s : St) (x : Choice) :
    (handle s x).context = s.context ∧ (handle s x).resumed = s.resumed ∨
      (handle s x).context = false ∧ (handle s x).resumed = [] := by
  unfold handle
  split
  · exact .inl ⟨rfl, rfl⟩
  · exact startShutdown_context { s with seen := s.seen ++ s.exception } x

theorem handle_context_off (hc : s.context = false) (x : Choice) : (handle s x).context = false := by
  rcases handle_context s x with he | he
  · exact he.1.trans hc
  · exact he.1

theorem handle_resumed (hr : s.resumed = []) (x : Choice) : (handle s x).resumed = [] := by
  rcases handle_context s x with he | he
  · exact he.2.trans hr
  · exact he.2

end Off

/-! ## Runs -/

/-- The context is on only where it is to be on. -/
def OnlyInContext (s : St) : Prop := s.context = true → (s.stack s.run).inContext = true

/-- It is on wherever it is to be on; elsewhere nobody is left in the list, until the
scheduler has ended. -/
structure Everywhere (s : St) : Prop where
  on : (s.stack s.run).inContext = true → s.context = true
  resumed : (s.stack s.run).inContext = false → s.stack s.run = .fresh ∨ s.resumed = []

def Lbl.isOp : Lbl → Bool
  | .op _ => true
  | _ => false

def Lbl.shuts : Lbl → Bool
  | .op (.shutdown _) => true
  | _ => false

def Lbl.goes : Lbl → Bool
  | .go _ => true
  | _ => false

/-- The heartbeat handler and the microtasks. -/
def Stack.ticking : Stack → Bool
  | .host _ .heartbeat | .host _ (.micro _) => true
  | _ => false

def Stack.starts : Stack → Bool
  | .host _ .starting => true
  | _ => false

/-- See the module doc. -/
def Calm (s : St) (l : Lbl) : Prop :=
  (l.shuts = true → s.context = false) ∧
  (l.goes = true → (s.stack s.run).ticking = true → s.exception = [] ∨ s.shutdown = true) ∧
  ((s.stack s.run).draining = true → l.isOp = false) ∧
  (l.goes = true → (s.stack s.run).starts = true → s.exception = [] ∨ s.resumed = [])

instance (s : St) (l : Lbl) : Decidable (Calm s l) := inferInstanceAs (Decidable (_ ∧ _ ∧ _ ∧ _))

section Step

variable {s t u : St} {c : Nat} {h : Host} {w : Work} {x : Choice} {o : Op}

theorem enqueue_context (s : St) (c : Nat) :
    (enqueue s c).context = s.context ∧ (s.context = false → (enqueue s c).resumed = s.resumed) := by
  unfold enqueue
  split
  · exact ⟨rfl, fun _ => rfl⟩
  · exact ⟨rfl, fun hc => by simp [hc]⟩

theorem cancel_context (s : St) (c : Nat) (safely : Bool) :
    (cancel s c safely).context = s.context ∧ (s.context = false → (cancel s c safely).resumed = s.resumed) := by
  unfold cancel
  dsimp only
  split
  · exact ⟨rfl, fun _ => rfl⟩
  split
  · exact ⟨rfl, fun _ => rfl⟩
  split
  · exact ⟨rfl, fun _ => rfl⟩
  split
  · exact enqueue_context _ c
  split
  · exact ⟨rfl, fun _ => rfl⟩
  · exact enqueue_context _ c

/-- Operations leave the context as it is, but for the shutdown, which turns it off. -/
theorem act_context (ha : act s o = some t) :
    t.context = s.context ∧ (s.context = false → t.resumed = s.resumed) ∨
      (∃ x, o = .shutdown x) ∧ t.context = false ∧ t.resumed = [] := by
  cases o with
  | resume c e =>
    obtain ⟨-, ⟨⟩⟩ := Option.ite_none_right_eq_some.1 ha
    unfold resume
    refine .inl ?_
    split
    · exact ⟨rfl, fun _ => rfl⟩
    split
    · exact ⟨rfl, fun _ => rfl⟩
    split
    · exact ⟨rfl, fun _ => rfl⟩
    · exact ⟨rfl, fun hc => by simp [hc]⟩
  | cancel c safely =>
    obtain ⟨-, ⟨⟩⟩ := Option.ite_none_right_eq_some.1 ha
    exact .inl (cancel_context s c safely)
  | enqueue c =>
    obtain ⟨-, ⟨⟩⟩ := Option.ite_none_right_eq_some.1 ha
    exact .inl (enqueue_context s c)
  | shutdown x =>
    obtain ⟨-, ⟨⟩⟩ := Option.ite_none_right_eq_some.1 ha
    rcases startShutdown_context s x with he | he
    · exact .inl ⟨he.1, fun _ => he.2⟩
    · exact .inr ⟨⟨x, rfl⟩, he⟩
  | create | spawn front | microtask | startEvent | stopEvent | throw e =>
    cases ha
    exact .inl ⟨rfl, fun _ => rfl⟩

/-- Behind a step of the scheduler. -/
inductive Behind (s t : St) (x : Choice) : Prop where
  | off (hc : t.context = false) (hp : (t.stack t.run).inContext = false)
    (hr : Everywhere s → Calm s (.go x) → t.stack t.run = .fresh ∨ t.resumed = [])
  | on (hp : (t.stack t.run).inContext = true) (hc : Everywhere s → Calm s (.go x) → t.context = true)

theorem Behind.only (hb : Behind s t x) : OnlyInContext t := by
  intro hc
  cases hb with
  | off hoff => rw [hoff] at hc; cases hc
  | on hp => exact hp

theorem Behind.everywhere (hb : Behind s t x) (he : Everywhere s) (hcalm : Calm s (.go x)) : Everywhere t := by
  cases hb with
  | off hc hp hr =>
    refine ⟨fun hn => ?_, fun _ => hr he hcalm⟩
    rw [hp] at hn
    cases hn
  | on hp hc =>
    refine ⟨fun _ => hc he hcalm, fun hn => ?_⟩
    rw [hp] at hn
    cases hn

/-- Outside of a shutdown, `Calm` leaves nothing to handle in the callbacks of a tick. -/
theorem handle_calm (hcalm : Calm s (.go x)) (ht : (s.stack s.run).ticking = true)
    (hg : s.shutdown = true → s.exception = []) : handle s x = s := by
  have he : s.exception = [] := (hcalm.2.1 rfl ht).elim id hg
  unfold handle
  rw [if_pos he]

theorem OnlyInContext.off (ha : OnlyInContext s) (hp : (s.stack s.run).inContext = false) : s.context = false := by
  cases hc : s.context with
  | false => rfl
  | true => rw [ha hc] at hp; cases hp

/-- The context is on at the point where the tick or loop goes on. -/
def Way.on (h : Host) : Way → Bool
  | .point w => (Stack.host h w).inContext
  | _ => false

theorem Host.behind_on (h : Host) (e : List Nat) (aside : Option (List Nat)) : (h.behind e aside).on h = false := by
  cases aside with
  | some saved => rfl
  | none =>
    cases h with
    | loop l => rfl
    | suspend c saved l => by_cases he : e = [] <;> simp [Host.behind, he, Way.on]

/-- Before control changes. -/
def Prepared (s u : St) (x : Choice) : Bool → Prop
  | true => Everywhere s → Calm s (.go x) → u.context = true
  | false => u.context = false ∧ (Everywhere s → Calm s (.go x) → u.resumed = [])

theorem Pre.prepared {h' : Host} {m : Way} (ha : OnlyInContext s) (hs : s.stack s.run = .host h w)
    (hp : Pre s x h w h' m u) : Prepared s u x (m.on h') := by
  -- from a point without callbacks
  have hoff : (Stack.host h w).inContext = false → Prepared s s x false := fun hn => by
    rw [← hs] at hn
    exact ⟨ha.off hn, fun he _ => (he.resumed hn).resolve_left (by rw [hs]; nofun)⟩
  have hon : (Stack.host h w).inContext = true → Everywhere s → s.context = true := fun hn he => he.on (by rw [hs, hn])
  have hcalm : (Stack.host h w).ticking = true → (s.shutdown = true → s.exception = []) → Calm s (.go x) →
      handle s x = s := fun ht hg hc => handle_calm hc (by rw [hs, ht]) hg
  have hhandle : (Stack.host h w).inContext = false → Prepared s (handle s x) x false := fun hn =>
    ⟨handle_context_off (hoff hn).1 x, fun he hc => handle_resumed ((hoff hn).2 he hc) x⟩
  induction hp with
  | settled | guarded | quiet => exact ⟨rfl, fun _ _ => rfl⟩
  | unstarted hr he => exact ⟨rfl, fun _ hc => (hc.2.2.2 rfl (by rw [hs]; rfl)).resolve_left he⟩
  | waits | top => cases x.heartbeat <;> exact fun _ _ => rfl
  | @beat h hg =>
    refine fun he hc => Eq.trans (b := (handle s x).context) ?_ ((congrArg St.context (hcalm rfl hg hc)).trans (hon rfl he))
    cases h <;> rfl
  | polls hg => exact fun he hc => (congrArg St.context (hcalm rfl hg hc)).trans (hon rfl he)
  | task hw | taskDone hw =>
    unfold Work.task at hw
    split at hw <;> cases hw <;> exact fun he _ => hon rfl he
  | @reactor h hg =>
    cases h with
    | suspend c saved k => exact ⟨rfl, fun _ _ => rfl⟩
    | loop l => exact ⟨rfl, fun _ _ => handle_resumed rfl x⟩
  | channels | final | drains => exact hoff rfl
  | drain => exact ⟨(hoff rfl).1, fun _ _ => rfl⟩
  | report _ hu =>
    subst hu
    exact ⟨rfl, fun _ _ => rfl⟩
  | destroy aside hw =>
    subst hw
    cases aside <;> exact hoff rfl
  | @placed h _ d held _ aside hw hu =>
    subst hw hu
    rw [Host.behind_on]
    cases aside <;> exact hoff rfl
  | merge => exact ⟨(finalMerge_context s x).1, fun _ _ => (finalMerge_context s x).2⟩
  | deadlock | again => exact hhandle rfl
  | cancelled => exact ⟨rfl, fun _ _ => rfl⟩
  | closes _ ih | lastDrain _ _ ih | nobody _ _ ih | leaves _ ih | pools _ ih | resumed _ _ ih | pop _ _ ih
  | popFinal _ _ ih => exact ih hs hoff hon hcalm hhandle
  | empty => exact fun _ _ => rfl

theorem Turn.behind (ha : OnlyInContext s) (hs : s.stack s.run = .host h w) (ht : Turn s x h w t) : Behind s t x := by
  cases ht with
  | @way h' m u _ hp ho =>
    have hprep := hp.prepared ha hs
    rcases ho.landed with ⟨w', rfl, rfl⟩ | ⟨hl, hne⟩
    · rw [Way.on] at hprep
      cases hin : (Stack.host h' w').inContext <;> rw [hin] at hprep
      · exact .off hprep.1 (by simpa using hin) fun he hc => .inr (hprep.2 he hc)
      · exact .on (by simpa using hin) hprep
    · have hoff : m.on h' = false := by
        cases m with
        | point w => exact absurd rfl (hne w)
        | _ => rfl
      rw [hoff] at hprep
      exact .off (hl.context.trans hprep.1) (Stack.arrived_inContext hl.arrived) fun he hc =>
        .inr (hl.resumed.trans (hprep.2 he hc))
  | drained hh hw => exact .on (by simp [Stack.inContext]) fun _ _ => rfl
  | @last l exit b hh hw =>
    have hc := (finishScheduler_frame (s.setStack s.run .fresh) exit).context
    have hf := finishScheduler_fresh s exit
    exact .off hc (by rw [hf]; rfl) fun _ _ => .inl hf

/-- Where the code of a coroutine calls, and where its finalizer ends. -/
theorem goFinish_off (hc : s.context = false) (c : Nat) (l : Option Loop) (held : List Nat) (late : Bool) (x : Choice) :
    Off s (goFinish s c l held late x) := by
  unfold goFinish
  split
  · exact ⟨hc, by simp [Stack.inContext], fun hr => hr⟩
  cases l with
  | some l =>
    refine ⟨hc, ?_, fun hr => hr⟩
    cases hb : l.begun <;> simp [release, hb, Stack.inContext]
  | none =>
    have hl := leave_landed (release s c held x) (z := .ended) rfl
    exact ⟨hl.context.trans hc, Stack.arrived_inContext hl.arrived, fun hr => hl.resumed.trans hr⟩

theorem call_context {l : Option Loop} (hs : s.stack s.run = .code c l) (hc : s.context = false) (k : Call) :
    (call s c l k).context = false ∧ ((call s c l k).stack (call s c l k).run).inContext = false ∧
        (call s c l k).resumed = s.resumed ∨
      (call s c l k).context = true ∧ ((call s c l k).stack (call s c l k).run).inContext = true := by
  cases k with
  | suspend yield bare e =>
    have hq : ∀ u : St, u.context = false → u.resumed = s.resumed → u.stack u.run = .code c l →
        (suspend u c l bare e).context = false ∧ ((suspend u c l bare e).stack (suspend u c l bare e).run).inContext = false ∧
          (suspend u c l bare e).resumed = s.resumed ∨
        (suspend u c l bare e).context = true ∧
          ((suspend u c l bare e).stack (suspend u c l bare e).run).inContext = true := by
      intro u hc hr hs
      unfold suspend
      rw [if_neg (by simp [hc])]
      split
      · exact .inr ⟨rfl, by simp [Stack.inContext]⟩
      split
      · exact .inl ⟨hc, (congrArg Stack.inContext hs : _), hr⟩
      · exact .inr ⟨rfl, by simp [Stack.inContext]⟩
    unfold call
    cases yield with
    | false => exact hq s hc rfl hs
    | true =>
      have hsame := enqueue_control s c
      have he := enqueue_context s c
      refine hq (enqueue s c) (he.1.trans hc) (he.2 hc) ?_
      exact (congrArg (enqueue s c).stack hsame.run).trans ((congrFun hsame.stack _).trans hs)
  | poll => exact .inr ⟨rfl, by simp [call, Stack.inContext]⟩
  | finish =>
    unfold call finish
    cases l <;> exact .inl ⟨hc, by simp [Stack.inContext], rfl⟩
  | clean => exact .inl ⟨hc, (congrArg Stack.inContext hs : _), rfl⟩
  | protect on => exact .inl ⟨hc, (congrArg Stack.inContext hs : _), rfl⟩
  | catch_ => exact .inl ⟨hc, (congrArg Stack.inContext hs : _), rfl⟩

theorem OnlyInContext.step {l : Lbl} (ha : OnlyInContext s) (hst : step s l = some t) : OnlyInContext t := by
  intro hc
  cases step_cases hst with
  | op hf hact =>
    rw [(act_control hact).stack, (act_control hact).run]
    rcases act_context hact with he | he
    · exact ha (he.1.symm.trans hc)
    · rw [he.2.1] at hc
      cases hc
  | call hs k =>
    rcases call_context hs (ha.off (by rw [hs]; rfl)) k with he | he
    · rw [he.1] at hc
      cases hc
    · exact he.2
  | turn hs ht => exact (ht.behind ha hs).only hc
  | polled hs => cases hc
  | @finish c l held late x hs =>
    have ho := goFinish_off (ha.off (by rw [hs]; rfl)) c l held late x
    rw [ho.context] at hc
    cases hc

theorem Everywhere.step {l : Lbl} (ha : OnlyInContext s) (he : Everywhere s) (hcalm : Calm s l) (hst : step s l = some t) :
    Everywhere t := by
  cases step_cases hst with
  | op hf hact =>
    have hsame := act_control hact
    have hpoint : t.stack t.run = s.stack s.run := by rw [hsame.stack, hsame.run]
    rcases act_context hact with hk | ⟨⟨x, rfl⟩, hk⟩
    · refine ⟨fun hp => hk.1.trans (he.on (hpoint ▸ hp)), fun hp => ?_⟩
      rw [hpoint] at hp ⊢
      exact (he.resumed hp).imp_right fun hr => (hk.2 (ha.off hp)).trans hr
    · refine ⟨fun hp => ?_, fun _ => .inr hk.2⟩
      -- the shutdown is not started by a callback
      have hon := he.on (hpoint ▸ hp)
      rw [hcalm.1 rfl] at hon
      cases hon
  | call hs k =>
    have hp : (s.stack s.run).inContext = false := by rw [hs]; rfl
    have hr : s.resumed = [] := (he.resumed hp).resolve_left (by rw [hs]; exact nofun)
    rcases call_context hs (ha.off hp) k with hk | hk
    · refine ⟨fun hn => ?_, fun _ => .inr (hk.2.2.trans hr)⟩
      rw [hk.2.1] at hn
      cases hn
    · refine ⟨fun _ => hk.1, fun hn => ?_⟩
      rw [hk.2] at hn
      cases hn
  | turn hs ht => exact (ht.behind ha hs).everywhere he hcalm
  | polled hs =>
    refine ⟨fun hn => ?_, fun _ => .inr rfl⟩
    simp [leaveContext, processResumed, Stack.inContext] at hn
  | @finish c l held late x hs =>
    have hp : (s.stack s.run).inContext = false := by rw [hs]; rfl
    have ho := goFinish_off (ha.off hp) c l held late x
    refine ⟨fun hn => ?_, fun _ => .inr (ho.resumed ((he.resumed hp).resolve_left (by rw [hs]; exact nofun)))⟩
    rw [ho.point] at hn
    cases hn

end Step

theorem only_inductive : lts.Inductive OnlyInContext where
  init s hs := by
    rw [show s = start from hs]
    exact fun hc => nomatch hc
  step _ _ _ ha hst := ha.step hst

theorem everywhere_inductive : (lts.restrict Calm).Inductive fun s => OnlyInContext s ∧ Everywhere s where
  init s hs := by
    rw [show s = start from hs]
    exact ⟨fun hc => (nomatch hc), ⟨fun hp => (nomatch hp), fun _ => .inr rfl⟩⟩
  step _ _ _ h hst := ⟨h.1.step hst.2, h.2.step h.1 hst.1 hst.2⟩

/-- In every run the context is off while the code of a coroutine or its finalizer runs. -/
theorem context_off (s : St) (hr : lts.Reachable s) (hs : (s.stack s.run).coroutine = true) : s.context = false :=
  (only_inductive.reachable s hr).off (Stack.coroutine_inContext hs).1

/-- **Scheduler context.** In every run the context is off while the code of a coroutine or
its finalizer runs. Under `Calm` it is on wherever a callback acts, and nobody is left in
`resumed_coroutines` while a coroutine runs. -/
theorem context_discipline (s : St) :
    (lts.Reachable s → (s.stack s.run).coroutine = true → s.context = false) ∧
    ((lts.restrict Calm).Reachable s →
      ((s.stack s.run).coroutine = true → s.resumed = []) ∧
      ∀ o t, (lts.restrict Calm).step s (.op o) t → (s.stack s.run).callback = true → s.context = true) := by
  refine ⟨context_off s, fun hr => ?_⟩
  obtain ⟨-, he⟩ := everywhere_inductive.reachable s hr
  refine ⟨fun hs => ?_, fun o t hst hs => ?_⟩
  · obtain ⟨hp, hf⟩ := Stack.coroutine_inContext hs
    exact (he.resumed hp).resolve_left hf
  · cases hd : (s.stack s.run).draining with
    | true => exact nomatch hst.1.2.2.1 hd
    | false => exact he.on (by simpa [Stack.callback, hd] using hs)

/-- A microtask resumes a coroutine that waits, and the tick gives control to it. -/
theorem context_discipline_resumed :
    ∃ s t, (lts.restrict Calm).Reachable s ∧ (lts.restrict Calm).Run s [.op (.resume 2 0), .go .quiet, .go .quiet] t ∧
      s.stack s.run = .host (.suspend 0 [] none) (.micro true) ∧ s.context = true ∧
      t.stack t.run = .code 2 (some ⟨true, true, false⟩) ∧ t.context = false ∧ t.resumed = [] := by
  obtain ⟨s, t, hr, hrun, hs, ht⟩ := LTS.exists_run_of_execG (G := Calm) (show Init start from rfl) (f := step)
    [.op (.spawn false), .call (.suspend true false 0), .go .quiet, .go .quiet,
      -- the second coroutine waits, and the first one goes on
      .call (.suspend false false 0), .go .quiet, .go .quiet,
      .op .microtask, .call (.suspend false false 0), .go .quiet, .go .quiet]
    [.op (.resume 2 0), .go .quiet, .go .quiet]
    (P := fun s t => s.stack s.run = .host (.suspend 0 [] none) (.micro true) ∧
      t.stack t.run = .code 2 (some ⟨true, true, false⟩)) (by decide +kernel)
  have htr := hr.run hrun
  cases hrun with
  | cons hst _ =>
    refine ⟨s, t, hr, .cons hst ‹_›, hs, ((context_discipline s).2 hr).2 _ _ hst (by rw [hs]; rfl), ht, ?_, ?_⟩
    · exact (context_discipline t).1 htr.of_restrict (by rw [ht]; rfl)
    · exact ((context_discipline t).2 htr).1 (by rw [ht]; rfl)

/-- **Counterexample.** A microtask leaves an exception, the graceful shutdown starts, and
the tick goes on to the reactor, whose callbacks run with the context off. The last drain
before a deadlock is reported runs with the context off. The events of the waker of the main
coroutine fail to start after one of them has resumed another coroutine: the main coroutine
goes on while that one is left in `resumed_coroutines`. -/
theorem callbacks_out_of_context :
    (∃ s t, lts.Reachable s ∧ step s (.op (.resume 0 0)) = some t ∧
      s.stack s.run = .host (.suspend 0 [] none) .reactor ∧ s.context = false) ∧
    (∃ s t, lts.Reachable s ∧ step s (.op (.resume 0 0)) = some t ∧
      s.stack s.run = .host (.suspend 0 [] none) .drain ∧ s.context = false) ∧
    ∃ s, lts.Reachable s ∧ s.stack s.run = .code 0 none ∧ s.resumed = [2] := by
  refine ⟨?_, ?_, ?_⟩
  · exact LTS.exists_step_of_exec (show Init start from rfl) (f := step)
      [.op .microtask, .call (.suspend false false 0), .go .quiet, .go .quiet, .op (.throw 7),
        .go { Choice.quiet with reactor := true }] (.op (.resume 0 0)) (by decide +kernel)
  · exact LTS.exists_step_of_exec (show Init start from rfl) (f := step)
      [.call (.suspend false false 0), .go .quiet, .go { Choice.quiet with reactor := true }, .go .quiet]
      (.op (.resume 0 0)) (by decide +kernel)
  · exact LTS.exists_from (f := step) start
      [.op (.spawn false), .call (.suspend true false 0), .go .quiet, .go .quiet, .call (.suspend false false 0),
        .go .quiet, .go .quiet, .call (.suspend false false 0), .op (.resume 2 0), .op (.throw 7), .go .quiet] (by decide +kernel)

end PhpAsync.L2.Scheduler
