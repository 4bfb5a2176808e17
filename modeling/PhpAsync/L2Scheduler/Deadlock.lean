import PhpAsync.L2Scheduler.Context

/-!
# Deadlock reports

A deadlock is looked for where a tick or the scheduler has found nothing to do: the reactor
said that no event is active, the queue and the list of microtasks are empty. The reactor is
drained once more, and if the queue is still empty the deadlock error is made and all
coroutines are cancelled.

**Hypotheses** (`Inert`).
* The last drain queues no microtask and starts no event: behind it only the queue is looked
  at again.
* The loop of libuv has a handle while an event is active: where it has none, the reactor
  says that no event is.

**Results.**
* `spent_inductive`: where a deadlock is looked for, nothing is left to do.
* `deadlock_reports_sound`: behind the last drain of each report the queue was empty, no
  microtask was queued and no event was active.
-/
namespace PhpAsync.L2.Scheduler

open PhpAsync.Core

/-! ## Counters -/

section Counters

variable {s t : St} {x : Choice}

/-- No microtask is queued, and no event is started. -/
structure Counts (s t : St) : Prop where
  microtasks : t.microtasks = s.microtasks
  events : t.events ≤ s.events

theorem Counts.refl (s : St) : Counts s s := ⟨rfl, Nat.le_refl _⟩

theorem Counts.trans {u : St} (h : Counts s t) (h' : Counts t u) : Counts s u :=
  ⟨h'.microtasks.trans h.microtasks, Nat.le_trans h'.events h.events⟩

theorem SameRest.counts (h : SameRest s t) : Counts s t := ⟨h.microtasks, Nat.le_of_eq h.events⟩

theorem resume_counts (s : St) (c e : Nat) : Counts s (resume s c e) := by
  unfold resume
  split
  · exact ⟨rfl, Nat.le_refl _⟩
  split
  · exact .refl s
  split <;> exact ⟨rfl, Nat.le_refl _⟩

theorem leaveContext_counts (s : St) (x : Choice) : Counts s (leaveContext s x) := ⟨rfl, Nat.sub_le _ _⟩

theorem cancelQueued_counts (s : St) (x : Choice) : Counts s (cancelQueued s x) := by
  have hon : Counts s { s with context := true } := ⟨rfl, Nat.le_refl _⟩
  have hall := hon.trans (SameRest.foldl cancelOne_rest s.registry _).counts
  exact (hall.trans (leaveContext_counts _ x)).trans ⟨rfl, Nat.le_refl _⟩

theorem startShutdown_counts (s : St) (x : Choice) : Counts s (startShutdown s x) := by
  unfold startShutdown
  split
  · exact .refl s
  dsimp only
  generalize hu : ({ s with shutdown := true, exit := _, exception := [] } : St) = u
  have hsu : Counts s u := by
    subst hu
    exact ⟨rfl, Nat.le_refl _⟩
  split
  · exact hsu.trans (cancelQueued_counts u x)
  · exact (hsu.trans (cancelQueued_counts u x)).trans ⟨rfl, Nat.le_refl _⟩

theorem handle_counts (s : St) (x : Choice) : Counts s (handle s x) := by
  unfold handle
  split
  · exact .refl s
  · have hseen : Counts s { s with seen := s.seen ++ s.exception } := ⟨rfl, Nat.le_refl _⟩
    exact hseen.trans (startShutdown_counts _ x)

/-- Foreign code does not add to the counters but by two operations. -/
theorem act_counts {o : Op} (ha : act s o = some t) (hm : o ≠ .microtask) (he : o ≠ .startEvent) : Counts s t := by
  cases o with
  | resume c e =>
    obtain ⟨-, ⟨⟩⟩ := Option.ite_none_right_eq_some.1 ha
    exact resume_counts s c e
  | cancel c safely =>
    obtain ⟨-, ⟨⟩⟩ := Option.ite_none_right_eq_some.1 ha
    exact (cancel_rest s c safely).counts
  | enqueue c =>
    obtain ⟨-, ⟨⟩⟩ := Option.ite_none_right_eq_some.1 ha
    exact (enqueue_rest s c).counts
  | shutdown x =>
    obtain ⟨-, ⟨⟩⟩ := Option.ite_none_right_eq_some.1 ha
    exact startShutdown_counts s x
  | microtask => exact absurd rfl hm
  | startEvent => exact absurd rfl he
  | stopEvent =>
    cases ha
    exact ⟨rfl, Nat.sub_le _ _⟩
  | create | spawn front | throw e =>
    cases ha
    exact ⟨rfl, Nat.le_refl _⟩

end Counters

/-! ## Where a deadlock is looked for -/

/-- A deadlock is looked for behind these points. -/
def Stack.decides : Stack → Bool
  | .host _ .drain | .host _ (.after false) => true
  | _ => false

theorem Stack.arrived_decides {z : Stack} (hz : z.arrived = true) : z.decides = false := by
  cases z with
  | host h w =>
    cases w with
    | after b => cases b <;> first | rfl | cases hz
    | _ => first | rfl | cases hz
  | fresh | code | poll | finish | ended => rfl

/-- Where a deadlock is looked for, nothing is left to do; `r` are the reports so far. -/
structure Spent (r : List Report) (t : St) : Prop where
  drain : ∀ h, t.stack t.run = .host h .drain → t.microtasks = 0 ∧ t.events = 0
  after : ∀ l, t.stack t.run = .host (.loop l) (.after false) → l.handles = false → t.events = 0
  reports : t.reports = r

section Spent

variable {s t : St} {h : Host} {w : Work} {l : Loop} {x : Choice} {r : List Report}

theorem Spent.elsewhere (hp : (t.stack t.run).decides = false) (hr : t.reports = r) : Spent r t := by
  refine ⟨fun h hs => ?_, fun l hs => ?_, hr⟩
  · rw [hs] at hp
    cases hp
  · rw [hs] at hp
    cases hp

theorem Landed.spent (hl : Landed s t) (hr : s.reports = r) : Spent r t :=
  .elsewhere (Stack.arrived_decides hl.arrived) (hl.reports.trans hr)

theorem reacted_events (s : St) (x : Choice) (h : Host) : (reacted s x h).events ≤ s.events := by
  cases h with
  | suspend c saved l => exact ((handle_counts s x).trans (leaveContext_counts _ x)).events
  | loop l => exact Nat.le_trans (handle_counts (processResumed s x) x).events (Nat.sub_le _ _)

/-- What a tick or loop knows before it goes on there; `idle` comes from a reactor without
active events, and so does `handles` of a loop. -/
def Way.Spent (h : Host) (u : St) : Way → Prop
  | .past idle => (idle = true → u.events = 0) ∧
    ∀ l, h = .loop l → (u.queue = [] ∨ l.next = false) → l.handles = false → u.events = 0
  | .point .drain => u.microtasks = 0 ∧ u.events = 0
  | .point (.after false) => ∀ l, h = .loop l → l.handles = false → u.events = 0
  | _ => True

theorem Pre.spent {h' : Host} {m : Way} (hsp : Spent s.reports s) (ha : w = .reactor → 0 < s.events → x.alive = true)
    (hs : s.stack s.run = .host h w) (hp : Pre s x h w h' m t) : m.Spent h' t := by
  induction hp with
  | waits | top => cases x.heartbeat <;> trivial
  | @quiet h b hg hq =>
    -- somebody is in the queue, so somebody is executed
    refine ⟨nofun, fun l hh hn => ?_⟩
    cases h with
    | suspend c saved k => cases hh
    | loop l' =>
      cases hh
      simp [leaveContext, processResumed, hq l' rfl] at hn
  | task hw | taskDone hw =>
    unfold Work.task at hw
    split at hw <;> cases hw <;> trivial
  | @reactor h hg =>
    have hidle : loopAlive s x = false → (reacted s x h).events = 0 := by
      intro hl
      have hle := reacted_events s x h
      have h0 : s.events = 0 := by grind [loopAlive]
      omega
    refine ⟨fun hi => hidle (by simpa using hi), fun l hh _ hl => hidle ?_⟩
    cases h with
    | suspend c saved k => cases hh
    | loop l' =>
      cases hh
      exact hl
  | destroy aside hw => cases aside <;> trivial
  | @placed h _ d held _ aside hw hu =>
    cases aside with
    | some saved => trivial
    | none =>
      cases h with
      | loop l => trivial
      | suspend c saved l =>
        unfold Host.behind
        dsimp only
        split <;> trivial
  | @deadlock l hg hl =>
    have he : (handle s x).events = 0 := Nat.le_zero.1 (hsp.after l hs hl ▸ (handle_counts s x).events)
    exact ⟨fun _ => he, fun _ _ _ _ => he⟩
  | lastDrain _ hm ih => exact ⟨hm, (ih ha hs).1 rfl⟩
  | nobody _ hn ih => exact fun l hl => (ih ha hs).2 l hl (by cases hl; exact hn)
  | _ => trivial

/-- Only the last drain makes a report, and looks at the queue alone. -/
theorem Pre.reports {h' : Host} {m : Way} (hp : Pre s x h w h' m t) : t.reports = s.reports ∨
    w = .drain ∧ ∃ n, n ≤ s.events ∧ t.reports = s.reports ++ [⟨[], s.microtasks, n⟩] := by
  induction hp with
  | guarded => exact .inl (finallyShutdown_control s x).reports
  | beat => exact .inl (beaten_control s x _).reports
  | polls | deadlock | again | quiet | top => exact .inl (handle_control s x).reports
  | reactor => exact .inl (reacted_control s x _).reports
  | report hq hu =>
    subst hu
    refine .inr ⟨rfl, s.events - x.stopped, Nat.sub_le _ _, ?_⟩
    rw [(cancelAll_control _ true x).reports, ← hq]
    rfl
  | placed aside hw hu =>
    subst hu
    exact .inl rfl
  | merge => exact .inl (finalMerge_control s x).reports
  | @cancelled _ _ _ u _ _ ih =>
    rw [(cancelAll_control u false x).reports]
    exact ih
  | closes _ ih | lastDrain _ _ ih | nobody _ _ ih | leaves _ ih | pools _ ih | resumed _ _ ih | pop _ _ ih
  | popFinal _ _ ih | empty _ ih => exact ih
  | _ => exact .inl rfl

theorem point_spent (hm : Way.Spent h s (.point w)) : Spent s.reports (s.setStack s.run (.host h w)) := by
  refine ⟨fun h' hs => ?_, fun l hs => ?_, rfl⟩
  · simp only [St.setStack_stack, St.setStack_run, Function.update_self, Stack.host.injEq] at hs
    obtain ⟨rfl, rfl⟩ := hs
    exact hm
  · simp only [St.setStack_stack, St.setStack_run, Function.update_self, Stack.host.injEq] at hs
    obtain ⟨rfl, rfl⟩ := hs
    exact hm l rfl

/-! ## Runs -/

theorem Turn.spent (hsp : Spent s.reports s) (ha : w = .reactor → 0 < s.events → x.alive = true)
    (hs : s.stack s.run = .host h w) (ht : Turn s x h w t) :
    Spent s.reports t ∨
      w = .drain ∧ ∃ m, m ≤ s.events ∧ Spent (s.reports ++ [⟨[], s.microtasks, m⟩]) t := by
  cases ht with
  | @way h' m u _ hp ho =>
    have hu : Spent u.reports t := by
      rcases ho.landed with ⟨w', rfl, rfl⟩ | ⟨hl, -⟩
      · exact point_spent (hp.spent hsp ha hs)
      · exact hl.spent rfl
    rcases hp.reports with hr | ⟨hw, n, hn, hr⟩
    · exact .inl (hr ▸ hu)
    · exact .inr ⟨hw, n, hn, hr ▸ hu⟩
  | drained hh hw => exact .inl (.elsewhere (by simp [Stack.decides]) rfl)
  | last hh hw =>
    refine .inl (.elsewhere ?_ ?_)
    · rw [finishScheduler_fresh s _]
      rfl
    · unfold finishScheduler
      dsimp only
      split
      · rfl
      split <;> rfl

theorem call_spent {c : Nat} {l : Option Loop} (hs : s.stack s.run = .code c l) (k : Call) :
    Spent s.reports (call s c l k) := by
  have hf := call_frame hs k
  obtain ⟨z, hz, hstack⟩ := hf.stack
  refine .elsewhere ?_ hf.reports
  rw [hstack, hf.run, Function.update_self]
  cases hz <;> rfl

theorem goFinish_spent (s : St) (c : Nat) (l : Option Loop) (held : List Nat) (late : Bool) (x : Choice) :
    Spent s.reports (goFinish s c l held late x) := by
  unfold goFinish
  split
  · exact .elsewhere (by simp [Stack.decides]) rfl
  cases l with
  | some l =>
    refine .elsewhere ?_ rfl
    cases hb : l.begun <;> simp [release, hb, Stack.decides]
  | none => exact (leave_landed (release s c held x) rfl).spent rfl

end Spent

def Stack.isDrain : Stack → Bool
  | .host _ .drain => true
  | _ => false

def Stack.polls : Stack → Bool
  | .host _ .reactor => true
  | _ => false

def Lbl.makesWork : Lbl → Bool
  | .op .microtask | .op .startEvent => true
  | _ => false

/-- A step that finds the loop of libuv without handles. -/
def Lbl.dead : Lbl → Bool
  | .go x => !x.alive
  | _ => false

/-- See the module doc. -/
def Inert (s : St) (l : Lbl) : Prop :=
  ((s.stack s.run).isDrain = true → l.makesWork = false) ∧
  ((s.stack s.run).polls = true → 0 < s.events → l.dead = false)

instance (s : St) (l : Lbl) : Decidable (Inert s l) := inferInstanceAs (Decidable (_ ∧ _))

theorem spent_inductive : (lts.restrict Inert).Inductive fun s => Spent s.reports s ∧ ∀ r ∈ s.reports, r = ⟨[], 0, 0⟩ where
  init s hs := by
    rw [show s = start from hs]
    exact ⟨.elsewhere rfl rfl, fun _ hr => absurd hr List.not_mem_nil⟩
  step s l t h hst := by
    obtain ⟨hsp, hall⟩ := h
    obtain ⟨hinert, hst⟩ := hst
    have hkeep : Spent s.reports t → Spent t.reports t ∧ ∀ r ∈ t.reports, r = ⟨[], 0, 0⟩ := fun ht =>
      ⟨⟨ht.drain, ht.after, rfl⟩, ht.reports ▸ hall⟩
    cases step_cases hst with
    | @op o _ hf ha =>
      have hsame := act_control ha
      refine hkeep ⟨fun h hs => ?_, fun l hs => ?_, hsame.reports⟩
      · rw [hsame.stack, hsame.run] at hs
        have hw := hinert.1 (by rw [hs]; rfl)
        have hc := act_counts ha (fun ho => by subst ho; cases hw) (fun ho => by subst ho; cases hw)
        obtain ⟨hm, he⟩ := hsp.drain h hs
        exact ⟨hc.microtasks.trans hm, Nat.le_zero.1 (he ▸ hc.events)⟩
      · -- no foreign code runs there
        rw [hsame.stack, hsame.run] at hs
        rw [hs] at hf
        cases hf
    | call hs k => exact hkeep (call_spent hs k)
    | @turn h w x _ hs ht =>
      have ha : w = .reactor → 0 < s.events → x.alive = true := by
        rintro rfl hpos
        simpa [Lbl.dead] using hinert.2 (by rw [hs]; rfl) hpos
      rcases ht.spent hsp ha hs with hs' | ⟨rfl, m, hm, hs'⟩
      · exact hkeep hs'
      · obtain ⟨h0, he⟩ := hsp.drain h hs
        refine ⟨⟨hs'.drain, hs'.after, rfl⟩, fun r hr => ?_⟩
        rw [hs'.reports, List.mem_append, List.mem_singleton] at hr
        have hm0 : m = 0 := by omega
        rcases hr with hr | hr
        · exact hall r hr
        · rw [hr, h0, hm0]
    | polled hs => exact hkeep (.elsewhere (by simp [leaveContext, processResumed, Stack.decides]) rfl)
    | finish hs => exact hkeep (goFinish_spent s _ _ _ _ _)

/-- **Deadlock reports.** Under `Inert` each deadlock that was reported was one: the queue was
empty, no microtask was queued and no event was active. -/
theorem deadlock_reports_sound (s : St) (hr : (lts.restrict Inert).Reachable s) :
    ∀ r ∈ s.reports, r = ⟨[], 0, 0⟩ :=
  (spent_inductive.reachable s hr).2

/-- The main coroutine waits for nothing that could happen. -/
theorem deadlock_reports_sound_main :
    ∃ s, (lts.restrict Inert).Reachable s ∧ s.exit = [9] ∧ s.reports.length = 1 ∧ ∀ r ∈ s.reports, r = ⟨[], 0, 0⟩ := by
  obtain ⟨s, hr, he, hl⟩ := LTS.existsG_from (G := Inert) (f := step) start
    [.call (.suspend false false 0), .go .quiet, .go { Choice.quiet with reactor := true }, .go .quiet,
      .go { Choice.quiet with deadlock := 9 }]
    (P := fun s => s.exit = [9] ∧ s.reports.length = 1) (by decide +kernel)
  exact ⟨s, hr, he, hl, deadlock_reports_sound s hr⟩

/-- **Counterexample.** A callback of the last drain queues a microtask, or starts an event,
and resumes nobody: a deadlock is reported while that work is still to be done. It is also
looked for while an event is active that has no handle in the loop of libuv. -/
theorem deadlock_with_work :
    (∃ s, lts.Reachable s ∧ s.exit = [9] ∧ s.microtasks = 1 ∧ s.reports = [⟨[], 1, 0⟩]) ∧
    (∃ s, lts.Reachable s ∧ s.exit = [9] ∧ s.events = 1 ∧ s.reports = [⟨[], 0, 1⟩]) ∧
    ∃ s, lts.Reachable s ∧ s.stack s.run = .host (.suspend 0 [] none) .drain ∧ s.events = 1 ∧ s.queue = [] := by
  refine ⟨?_, ?_, ?_⟩
  · exact LTS.exists_from (f := step) start
      [.call (.suspend false false 0), .go .quiet, .go { Choice.quiet with reactor := true }, .go .quiet,
        .op .microtask, .go { Choice.quiet with deadlock := 9 }] (by decide +kernel)
  · exact LTS.exists_from (f := step) start
      [.call (.suspend false false 0), .go .quiet, .go { Choice.quiet with reactor := true }, .go .quiet,
        .op .startEvent, .go { Choice.quiet with deadlock := 9 }] (by decide +kernel)
  · exact LTS.exists_from (f := step) start
      [.call (.suspend false false 0), .op .startEvent, .go .quiet, .go { Choice.quiet with reactor := true },
        .go { Choice.quiet with alive := false }] (by decide +kernel)

end PhpAsync.L2.Scheduler
