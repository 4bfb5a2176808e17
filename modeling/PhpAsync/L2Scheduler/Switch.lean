import PhpAsync.L2Scheduler.Fibers

/-!
# Where the other fibers stand

A fiber that has no control stands in a suspension that has switched away, or nobody's code
is on it; the scheduler stands where control can come back to it (`Standing`). An entry of
the queue that is not to be ignored then leads to one of two ends (`Executed`): the
suspension of the coroutine returns on its own fiber, or its code begins on a free one.
-/
namespace PhpAsync.L2.Scheduler

open PhpAsync.Core Function
open PhpAsync.L2.Coroutine (Status)

/-- `finally_shutdown` is left by a switch only in a shutdown. -/
def Stack.parked (shutdown : Bool) : Stack → Bool
  | .fresh | .ended => true
  | .host (.suspend _ _ _) w => decide (w = .away)
  | .host (.loop _) (.final _ _) => shutdown
  | .host (.loop _) _ => true
  | .code _ _ | .poll _ _ | .finish _ _ _ _ => false

/-- Where `switch_to_scheduler` finds the scheduler. -/
def Stack.home : Stack → Bool
  | .fresh | .host (.loop _) .away | .host (.loop _) (.final _ .away) => true
  | _ => false

variable {z : Stack}

theorem Stack.parked_mono {a b : Bool} (hz : z.parked a = true) (hab : a = true → b = true) : z.parked b = true := by
  cases z with
  | host h w =>
    cases h with
    | loop l =>
      cases w with
      | final saved p => exact hab hz
      | _ => rfl
    | suspend c saved l => exact hz
  | fresh | ended => rfl
  | code | poll | finish => cases hz

/-- The fiber of a coroutine stands at its suspension. -/
theorem Stack.parked_owner {b : Bool} {d : Nat} (hz : z.parked b = true) (hd : z.owner = some d) :
    ∃ saved l, z = .host (.suspend d saved l) .away := by
  cases z with
  | host h w =>
    cases h with
    | loop l => cases hd
    | suspend c saved l =>
      cases hd
      exact ⟨saved, l, by rw [of_decide_eq_true hz]⟩
  | fresh | ended => cases hd
  | code | poll | finish => cases hz

/-- No fiber is running: control is about to go to one of them. -/
structure Standing (s : St) : Prop where
  parked : ∀ f, (s.stack f).parked s.shutdown = true
  home : (s.stack 1).home = true

/-- The suspension a fiber is in. -/
def Stack.frame : Stack → Option (Nat × List Nat × Option Loop)
  | .host (.suspend c saved l) _ => some (c, saved, l)
  | _ => none

/-- Control has gone to a fiber that will execute `d`; in `s` the entry of `d` has just been
taken out of the queue. -/
structure Readied (s : St) (d : Nat) (u : St) : Prop where
  run : u.run ≠ 1
  parked : ∀ f, f ≠ u.run → (u.stack f).parked u.shutdown = true
  home : (u.stack 1).home = true
  frame : ∀ f, (u.stack f).frame = (s.stack f).frame
  made : u.made = s.made
  registry : u.registry = s.registry
  queue : u.queue = s.queue
  shutdown : u.shutdown = s.shutdown
  exception : u.exception = s.exception
  co : ∀ c, c ≠ d → u.co c = s.co c

/-- What the entry of `d` leads to. -/
inductive Executed (s : St) (d : Nat) (x : Choice) : St → Prop where
  | wakes {u : St} {saved : List Nat} {l : Option Loop} (hu : Readied s d u)
    (hs : u.stack u.run = .host (.suspend d saved l) .away) (hd : u.co d = s.co d) :
    Executed s d x (wake u d saved l x)
  | begins {u : St} (hu : Readied s d u) (hs : (u.stack u.run).owner = none) (hc : u.current = some d) (l : Loop) :
    Executed s d x (begin u d l x)

section Executed

variable {s t u : St} {d g : Nat} {l : Loop} {x : Choice}

theorem Standing.readied (hp : Standing s) (hrun : u.run ≠ 1)
    (he : (u.stack, u.made, u.registry, u.queue, u.shutdown, u.exception) = (s.stack, s.made, s.registry, s.queue, s.shutdown, s.exception))
    (hco : ∀ c, c ≠ d → u.co c = s.co c) : Readied s d u := by
  simp only [Prod.mk.injEq] at he
  obtain ⟨hstack, hmade, hregistry, hqueue, hshutdown, hexception⟩ := he
  exact {
    run := hrun
    parked f _ := by rw [hstack, hshutdown]; exact hp.parked f
    home := by rw [hstack]; exact hp.home
    frame f := by rw [hstack]
    made := hmade
    registry := hregistry
    queue := hqueue
    shutdown := hshutdown
    exception := hexception
    co := hco }

theorem Executed.of_frame (he : Executed u d x t) (hf : ∀ f, (u.stack f).frame = (s.stack f).frame)
    (he : (u.made, u.registry, u.queue, u.shutdown, u.exception, u.co) = (s.made, s.registry, s.queue, s.shutdown, s.exception, s.co))
    : Executed s d x t := by
  simp only [Prod.mk.injEq] at he
  obtain ⟨hmade, hregistry, hqueue, hshutdown, hexception, hco⟩ := he
  have hready : ∀ {v}, Readied u d v → Readied s d v := fun hv =>
    ⟨hv.run, hv.parked, hv.home, fun f => (hv.frame f).trans (hf f), hv.made.trans hmade, hv.registry.trans hregistry,
      hv.queue.trans hqueue, hv.shutdown.trans hshutdown, hv.exception.trans hexception,
      fun c hc => (hv.co c hc).trans (congrFun hco c)⟩
  cases he with
  | wakes hv hs hd => exact .wakes (hready hv) hs (by rw [hd, hco])
  | begins hv hs hc l => exact .begins (hready hv) hs hc l

theorem arrive_executed {saved : List Nat} {l : Option Loop} (hp : Standing s)
    (hg : s.stack g = .host (.suspend d saved l) .away) (x : Choice) : Executed s d x (arrive s g x) := by
  have hone : g ≠ 1 := by
    rintro rfl
    have hhome := hp.home
    rw [hg] at hhome
    cases hhome
  have he : arrive s g x = wake { s with run := g } d saved l x := by simp [arrive, hg]
  rw [he]
  exact .wakes (hp.readied hone rfl fun _ _ => rfl) hg rfl

theorem switchTo_executed (ho : Owned s) (hp : Standing s) (hd : d ≠ 1) (x : Choice) : Executed s d x (switchTo s d x) := by
  unfold switchTo
  split
  · rename_i g hg
    obtain ⟨saved, l, hs⟩ := Stack.parked_owner (hp.parked g) ((ho.owner d g hd).1 hg)
    have hcur : Standing { s with current := some d } := ⟨hp.parked, hp.home⟩
    exact (arrive_executed hcur hs x).of_frame (fun _ => rfl) rfl
  split
  · rename_i g p hpool
    have hpooled := (ho.pool g).1 (hpool ▸ List.mem_cons_self)
    have hone : g ≠ 1 := by
      rintro rfl
      rw [Stack.free_pooled ho.scheduler] at hpooled
      cases hpooled
    obtain ⟨l, hs | hs⟩ := Stack.pooled_cases hpooled
    all_goals
      unfold arrive
      simp only [St.setCo_stack, St.setCo_current, hs]
      refine .begins ?_ (Stack.pooled_owner hpooled) rfl l
      refine hp.readied hone rfl fun c hc => ?_
      simp [give, update_of_ne hc]
  · have hs : s.stack s.fibers = .fresh := ho.fresh s.fibers (Nat.le_refl _)
    have hone : s.fibers ≠ 1 := fun he => absurd ho.two (by omega)
    unfold arrive
    simp only [St.setCo_stack, St.setCo_current, hs]
    refine .begins ?_ (congrArg Stack.owner hs) rfl ⟨true, true, false⟩
    refine hp.readied hone rfl fun c hc => ?_
    simp [update_of_ne hc]

/-! ## Fibers in a tick or a loop -/

/-- The other fibers stand, and the fiber that has control has nobody to run. -/
structure Still (s : St) : Prop where
  parked : ∀ f, f ≠ s.run → (s.stack f).parked s.shutdown = true
  home : s.run ≠ 1 → (s.stack 1).home = true

theorem Still.of_eq (hs : Still s) (hstack : t.stack = s.stack) (hrun : t.run = s.run)
    (hshutdown : s.shutdown = true → t.shutdown = true) : Still t where
  parked f hf := by
    rw [hstack]
    exact Stack.parked_mono (hs.parked f (hrun ▸ hf)) hshutdown
  home h1 := by
    rw [hstack]
    exact hs.home (hrun ▸ h1)

/-- The fiber that has control stands as well. -/
theorem Still.standing (hs : Still s) (hz : z.parked s.shutdown = true) (hh : s.run = 1 → z.home = true) :
    Standing (s.setStack s.run z) where
  parked f := by
    by_cases hf : f = s.run
    · subst hf
      simpa using hz
    · simpa [update_of_ne hf] using hs.parked f hf
  home := by
    by_cases h1 : s.run = 1
    · simpa [← h1] using hh h1
    · simpa [update_of_ne (Ne.symm h1)] using hs.home h1

theorem frame_setStack (hz : z.frame = (s.stack s.run).frame) (f : Nat) :
    ((s.setStack s.run z).stack f).frame = (s.stack f).frame := by
  by_cases hf : f = s.run
  · subst hf
    simpa using hz
  · simp [update_of_ne hf]

theorem Stack.frame_of_owner (hz : z.owner = none) : z.frame = none := by
  cases z with
  | host h w => cases h with
    | loop l => rfl
    | suspend c saved l => cases hz
  | _ => rfl

/-- The fiber that has control is in the tick or loop `h`. -/
structure Within (s : St) (h : Host) : Prop where
  place : At s h
  frame : (s.stack s.run).frame = (Stack.host h .away).frame

theorem Host.frame_eq (h : Host) (w w' : Work) : (Stack.host h w).frame = (Stack.host h w').frame := by
  cases h <;> rfl

variable {h : Host}

theorem Within.of_stack {w : Work} (hs : s.stack s.run = .host h w) (hw : w ≠ .pooled ∧ w ≠ .idle) : Within s h :=
  ⟨.of_stack hs hw, by rw [hs]; exact h.frame_eq w .away⟩

theorem Within.of_eq (hi : Within s h) (he : (t.stack, t.run) = (s.stack, s.run)) : Within t h := by
  refine ⟨hi.place.of_eq he, ?_⟩
  simp only [Prod.mk.injEq] at he
  rw [he.1, he.2]
  exact hi.frame

theorem Within.onLoop (hi : Within s h) (f : Loop → Loop) : Within s (h.onLoop f) := by
  cases h <;> exact ⟨hi.place, hi.frame⟩

/-- The scheduler suspends nobody on its own stack. -/
theorem Within.run_ne (hi : Within s h) (ho : Owned s) (hn : h.owner ≠ none) : s.run ≠ 1 := by
  intro h1
  have howner := hi.place.1
  rw [h1, Stack.free_owner ho.scheduler] at howner
  exact hn howner.symm

/-- A fiber in a tick or loop switches to the coroutine of an entry. -/
theorem Still.away_executed (hs : Still s) (ho : Owned s) (hi : Within s h) (w : Work)
    (hz : (Stack.host h w).parked s.shutdown = true) (hh : s.run = 1 → (Stack.host h w).home = true)
    (hw : w ≠ .pooled ∧ w ≠ .idle) (hfits : (Stack.host h w).Fits s.co) (hd : d ≠ 1) (x : Choice) :
    Executed s d x (switchTo (s.setStack s.run (.host h w)) d x) := by
  have hset := ho.setHost hi.place hw hfits
  refine (switchTo_executed hset (hs.standing hz hh) hd x).of_frame (frame_setStack ?_) rfl
  rw [hi.frame]
  exact h.frame_eq w .away

/-- A fiber that is free leaves control to the fiber of a coroutine. -/
theorem Still.leave_executed (hs : Still s) (ho : Owned s) (hi : Within s (.loop l)) (hd : d ≠ 1)
    (hg : (s.co d).fiber = some g) (hne : g ≠ s.run) (hz : z.parked s.shutdown = true) (hh : s.run = 1 → z.home = true)
    (hn : z.owner = none) (he : (u.stack, u.made, u.registry, u.queue, u.shutdown, u.exception, u.co) =
      (update s.stack s.run z, s.made, s.registry, s.queue, s.shutdown, s.exception, s.co)) (x : Choice) :
    Executed s d x (arrive u g x) := by
  simp only [Prod.mk.injEq] at he
  obtain ⟨hstack, hmade, hregistry, hqueue, hshutdown, hexception, hco⟩ := he
  obtain ⟨saved, k, hsg⟩ := Stack.parked_owner (hs.parked g hne) ((ho.owner d g hd).1 hg)
  have hstand := hs.standing hz hh
  have hu : Standing u := by
    refine ⟨fun f => ?_, ?_⟩
    · rw [hstack, hshutdown]
      exact hstand.parked f
    · rw [hstack]
      exact hstand.home
  have hug : u.stack g = .host (.suspend d saved k) .away := by rw [hstack, update_of_ne hne, hsg]
  refine (arrive_executed hu hug x).of_frame (fun f => ?_) (by rw [hmade, hregistry, hqueue, hshutdown, hexception, hco])
  rw [hstack]
  refine frame_setStack ?_ f
  rw [hi.frame, Stack.frame_of_owner hn]
  rfl

/-- The entry of the current coroutine has been taken out, or it is to be ignored, or it is
executed. `finally_shutdown` is called by a loop in a shutdown. -/
theorem Out.entry_cases (hs : Still s) {aside : Option (List Nat)} (ho : Owned s) (hi : Within s h) (hd : d ≠ 1)
    (ha : aside ≠ none → h.owner = none ∧ s.shutdown = true) (he : Out s x h (.entry d aside) t) :
    (s.current = some d ∧ ∀ c saved k, h = .suspend c saved k → t = Scheduler.wake s c saved k x) ∨
    ((s.co d).status = .ignored ∧
      t = (ignore s d).setStack s.run (.host h (.place aside d (x.error ++ s.exception) false))) ∨
    ((s.co d).status ≠ .ignored ∧ Executed s d x t) := by
  cases he with
  | own hc =>
    refine .inl ⟨hc, fun c saved k hh => ?_⟩
    cases hh
    rfl
  | collects hc =>
    refine .inl ⟨hc, fun c saved k hh => ?_⟩
    have hn := (ha nofun).1
    rw [hh] at hn
    cases hn
  | ignored hig => exact .inr (.inl ⟨hig, rfl⟩)
  | switched hig =>
    refine .inr (.inr ⟨hig, hs.away_executed ho hi (.switched aside) ?_ (fun h1 => ?_) ?_ ?_ hd x⟩)
    · cases aside with
      | none => cases h <;> rfl
      | some saved =>
        obtain ⟨hn, hsh⟩ := ha nofun
        cases h with
        | loop l => exact hsh
        | suspend c saved k => cases hn
    · cases h with
      | loop l => cases aside <;> rfl
      | suspend c saved k => exact absurd h1 (hi.run_ne ho nofun)
    · cases aside <;> simp [Work.switched]
    · cases aside <;> trivial
  | @begun l d hig h1 hn =>
    refine .inr (.inr ⟨hig, .begins (u := { s with current := some d }) ?_ hi.place.1 rfl l⟩)
    exact ⟨h1, hs.parked, hs.home h1, fun _ => rfl, rfl, rfl, rfl, rfl, rfl, fun _ _ => rfl⟩
  | mine hg =>
    have howner := (ho.owner d s.run hd).1 hg
    rw [hi.place.1] at howner
    cases howner
  | @pooled l d g hig h1 hg hne =>
    exact .inr (.inr ⟨hig, hs.leave_executed ho hi hd hg hne (z := .host (.loop l) .pooled) rfl (fun he => absurd he h1) rfl rfl x⟩)
  | ended hig h1 hg hne =>
    exact .inr (.inr ⟨hig, hs.leave_executed ho hi hd hg hne (z := .fresh) rfl (fun _ => rfl) rfl rfl x⟩)

end Executed

end PhpAsync.L2.Scheduler
