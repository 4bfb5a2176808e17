import Mathlib.Order.BooleanAlgebra.Defs
import PhpAsync.Core.LTS

/-!
# `FileSystemWatcher`

Model of fs_watcher.c and of the notification of filesystem events (libuv_reactor.c:2914-2950).
Events wait in the table or in the ring buffer; with debounce their kinds are collected in
`pending_events` until the quiet timer fires. An iterator takes the first event or parks on the
filesystem event, with debounce on `deliver_event`, whose callbacks run in a later turn of the loop.

**Hypotheses.**
* `Prompt`: in coalesced mode with debounce the last collapsed event has been taken when a change
  comes. The flush drops the next one otherwise (`second_burst_is_dropped`).
* `Steady`: with debounce no monitoring error comes while an iterator is parked. The error closes
  the watcher and does not trigger `deliver_event` (`error_strands_iterator`).

**Results.**
* `closed_watcher_wakes`: an iterator parked in a closed watcher has been woken since.
* `no_change_is_forgotten`: every kind is delivered or held; raw events come one for one; coalesced
  entries have exactly the kinds since the last delivery.

The extension filter is any predicate; the timer may fire at any time. Allocation does not fail.
-/
namespace PhpAsync.L2.Watcher

open PhpAsync.Core

/-- `renamed` and `changed`. -/
abbrev Kinds := Bool × Bool

/-- `FileSystemEvent`; the path is the watcher's. -/
structure Event (α : Type) where
  name : Option α
  kinds : Kinds
  deriving DecidableEq, Repr

structure Cfg (α : Type) where
  coalesce : Bool
  debounce : Bool
  accepts : Option α → Bool

/-- A coroutine with an iterator. A parked one may have been resumed; `woken` says that it was
notified, or its event triggered, since the watcher is closed. -/
inductive Iter where
  | running
  | parked (resumed woken : Bool)
  deriving DecidableEq, Repr

inductive Ev (α : Type) where
  | came (e : Event α)
  | given (e : Event α)
  deriving DecidableEq, Repr

/-- `held` is the table or the ring buffer, a union in the source; `past` is history, the latest
event first; with debounce a change is noted under the path, as `FileSystemEvent`s then are. -/
structure St (α : Type) where
  held : List (Event α)
  dirty : Bool
  pending : Kinds
  closed : Bool
  triggered : Bool
  iters : List Iter
  past : List (Ev α)
  deriving DecidableEq, Repr

variable {α : Type}

/-- The entry under the key gets the kinds, or there is a new one.
mirrors fs_watcher.c:298-316 -/
def merge [DecidableEq α] : List (Event α) → Event α → List (Event α)
  | [], e => [e]
  | x :: held, e =>
    if x.name = e.name then { x with kinds := x.kinds ⊔ e.kinds } :: held else x :: merge held e

/-- mirrors fs_watcher.c:221-232, 270-326 -/
def onFsEvent [DecidableEq α] (c : Cfg α) (s : St α) (e : Event α) : St α :=
  if s.closed then s
  else if c.debounce then
    if c.accepts e.name then
      { s with
        dirty := true
        pending := (if s.dirty then s.pending else ⊥) ⊔ e.kinds
        past := .came ⟨none, e.kinds⟩ :: s.past }
    else s
  else { s with held := if c.coalesce then merge s.held e else s.held ++ [e], past := .came e :: s.past }

/-- A wake-up is issued, and has arrived if `now`. -/
def Iter.wake (closed now : Bool) : Iter → Iter
  | .running => .running
  | .parked resumed woken => .parked (resumed || now) (woken || closed)

/-- The callbacks of the event the iterators are parked on run. -/
def notify (s : St α) : St α := { s with iters := s.iters.map (Iter.wake s.closed true) }

/-- `uv_async_send` for `deliver_event`. -/
def trigger (s : St α) : St α := { s with triggered := true, iters := s.iters.map (Iter.wake s.closed false) }

/-- mirrors fs_watcher.c:161-199 -/
def flush [DecidableEq α] (c : Cfg α) (s : St α) : St α :=
  if s.dirty then
    trigger { s with
      held := if c.coalesce ∧ none ∈ s.held.map Event.name then s.held else s.held ++ [⟨none, s.pending⟩]
      dirty := false
      pending := ⊥ }
  else s

/-- mirrors fs_watcher.c:332-355 -/
def doClose (c : Cfg α) (s : St α) : St α :=
  if s.closed then s
  else if c.debounce then trigger { s with closed := true } else notify { s with closed := true }

/-- mirrors fs_watcher.c:75-106, 618-676 -/
def moveForward (s : St α) (i : Nat) : St α :=
  match s.held with
  | e :: held => { s with held, past := .given e :: s.past, iters := s.iters.set i .running }
  | [] => { s with iters := s.iters.set i (if s.closed then .running else .parked false false) }

inductive Lbl (α : Type) where
  | iterate
  | change (e : Event α)
  | error
  | timer
  | deliver
  | forward (i : Nat)
  /-- a parked coroutine is resumed with an exception -/
  | cancel (i : Nat)
  /-- `close()` or the destructor -/
  | close

def step [DecidableEq α] (c : Cfg α) (s : St α) : Lbl α → Option (St α)
  | .iterate => some { s with iters := s.iters ++ [.running] }
  | .change e => some (if c.debounce then onFsEvent c s e else notify (onFsEvent c s e))
  | .error => some (if c.debounce then { s with closed := true } else notify { s with closed := true })
  | .timer => some (if s.closed then s else flush c s)
  | .deliver => if s.triggered then some { notify s with triggered := false } else none
  | .forward i =>
    match s.iters[i]? with
    | some .running | some (.parked true _) => some (moveForward s i)
    | _ => none
  | .cancel i => some { s with iters := s.iters.set i .running }
  | .close => some (doClose c s)

def init : St α := ⟨[], false, ⊥, false, false, [], []⟩

def lts [DecidableEq α] (c : Cfg α) : LTS (St α) (Lbl α) := .ofFn (· = init) (step c)

/-! ## Closing -/

section Closing

/-- With debounce an error finds no iterator parked. -/
def Steady (c : Cfg α) (s : St α) : Lbl α → Prop
  | .error => c.debounce = true → ∀ x ∈ s.iters, x = .running
  | _ => True

/-- It runs, or was woken since the closing and has been resumed or will be by `deliver_event`. -/
def Iter.Released (triggered : Bool) : Iter → Prop
  | .running => True
  | .parked resumed woken => woken = true ∧ (resumed = true ∨ triggered = true)

def Released (s : St α) : Prop := s.closed = true → ∀ x ∈ s.iters, x.Released s.triggered

variable {c : Cfg α} {s t : St α} {l : Lbl α} {i : Nat}

theorem released_notify (s : St α) : Released (notify s) := by
  intro hc x hx
  obtain ⟨y, -, rfl⟩ := List.mem_map.1 hx
  cases y <;> simp_all [Iter.wake, Iter.Released, notify]

theorem released_trigger (s : St α) : Released (trigger s) := by
  intro hc x hx
  obtain ⟨y, -, rfl⟩ := List.mem_map.1 hx
  cases y <;> simp_all [Iter.wake, Iter.Released, trigger]

theorem Released.set (h : Released s) {x : Iter} (hx : s.closed = true → x = .running) (hi : t.iters = s.iters.set i x)
    (hc : t.closed = s.closed) (ht : t.triggered = s.triggered) : Released t := by
  intro hcl y hy
  rw [hc] at hcl
  rw [hi] at hy
  rw [ht]
  rcases List.mem_or_eq_of_mem_set hy with hy | rfl
  · exact h hcl y hy
  · rw [hx hcl]
    trivial

variable [DecidableEq α]

theorem onFsEvent_same (c : Cfg α) (s : St α) (e : Event α) : (onFsEvent c s e).closed = s.closed ∧
    (onFsEvent c s e).iters = s.iters ∧ (onFsEvent c s e).triggered = s.triggered := by
  unfold onFsEvent
  split
  · exact ⟨rfl, rfl, rfl⟩
  split
  · split <;> exact ⟨rfl, rfl, rfl⟩
  · exact ⟨rfl, rfl, rfl⟩

theorem Released.step (h : Released s) (hG : Steady c s l) (hs : step c s l = some t) : Released t := by
  cases l with
  | iterate =>
    cases hs
    intro hc x hx
    rcases List.mem_append.1 hx with hx | hx
    · exact h hc x hx
    · rw [List.mem_singleton.1 hx]
      trivial
  | change e =>
    obtain ⟨hc, hi, ht⟩ := onFsEvent_same c s e
    cases hs
    split
    · unfold Released
      rw [hc, hi, ht]
      exact h
    · exact released_notify _
  | error =>
    cases hs
    split
    · rename_i hd
      intro _ x hx
      rw [hG hd x hx]
      trivial
    · exact released_notify _
  | timer =>
    cases hs
    split
    · exact h
    · unfold flush
      split
      · exact released_trigger _
      · exact h
  | deliver =>
    obtain ⟨-, ⟨⟩⟩ := Option.ite_none_right_eq_some.1 hs
    exact released_notify { s with triggered := false }
  | forward i =>
    have hm : moveForward s i = t := by
      simp only [Watcher.step] at hs
      split at hs <;> simp_all
    subst hm
    unfold moveForward
    split
    · exact h.set (fun _ => rfl) rfl rfl rfl
    · exact h.set (fun hc => if_pos hc) rfl rfl rfl
  | cancel i =>
    cases hs
    exact h.set (fun _ => rfl) rfl rfl rfl
  | close =>
    cases hs
    unfold doClose
    split
    · exact h
    split
    · exact released_trigger _
    · exact released_notify _

theorem released_inductive (c : Cfg α) : ((lts c).restrict (Steady c)).Inductive Released where
  init s hs := by
    rw [show s = init from hs]
    exact nofun
  step s l t h hst := h.step hst.1 hst.2

/-- **A closed watcher releases its iterators.** Whatever closed it, a parked iterator has been
woken since: it has been resumed, or the callbacks of `deliver_event` are still to run. -/
theorem closed_watcher_wakes (c : Cfg α) (s : St α) (hr : ((lts c).restrict (Steady c)).Reachable s)
    (hc : s.closed = true) (resumed woken : Bool) (hi : .parked resumed woken ∈ s.iters) :
    woken = true ∧ (resumed = true ∨ s.triggered = true) :=
  (released_inductive c).reachable s hr hc _ hi

instance (c : Cfg α) (s : St α) : (l : Lbl α) → Decidable (Steady c s l)
  | .error => inferInstanceAs (Decidable (_ → _))
  | .iterate | .change _ | .timer | .deliver | .forward _ | .cancel _ | .close => isTrue trivial

/-- Two iterators, one of them resumed by a flush, when a watcher with debounce is closed. -/
theorem closed_watcher_wakes_two : ∃ s : St Nat, s.iters = [.parked true true, .parked false true] ∧
    s.triggered = true := by
  obtain ⟨s, hr, hc, hi⟩ := LTS.existsG_from (f := step (α := Nat) ⟨true, true, fun _ => true⟩)
    (G := Steady ⟨true, true, fun _ => true⟩) (P := fun s => s.closed = true ∧
      s.iters = [.parked true true, .parked false true]) init
    [.iterate, .iterate, .forward 0, .change ⟨some 7, (true, false)⟩, .timer, .deliver, .forward 1, .forward 1, .close]
    (by decide +kernel)
  have h := closed_watcher_wakes _ s hr hc false true (by rw [hi]; simp)
  exact ⟨s, hi, h.2.resolve_left nofun⟩

/-- **Counterexample.** The error closes a watcher with debounce: its iterator is parked, nothing
is on its way to it, and `close()` does nothing more. -/
theorem error_strands_iterator : ∃ s : St Nat, (lts ⟨true, true, fun _ => true⟩).Reachable s ∧ s.closed = true ∧
    s.iters = [.parked false false] ∧ s.triggered = false ∧ doClose ⟨true, true, fun _ => true⟩ s = s := by
  exact LTS.exists_from (f := step (α := Nat) ⟨true, true, fun _ => true⟩) init [.iterate, .forward 0, .error]
    (by decide +kernel)

end Closing

/-! ## Delivery -/

/-- An event of the list has the name and the kinds. -/
def Covers (h : List (Event α)) (e : Event α) : Prop := ∃ g ∈ h, g.name = e.name ∧ e.kinds ≤ g.kinds

/-- Every change is covered by what was given after it and by `h`. -/
def Kept : List (Event α) → List (Ev α) → Prop
  | _, [] => True
  | h, .came e :: before => Covers h e ∧ Kept h before
  | h, .given g :: before => Kept (g :: h) before

variable {h h' : List (Event α)}

theorem Covers.cons (hm : ∀ e ∈ h, Covers h' e) (g : Event α) :
    ∀ e ∈ g :: h, Covers (g :: h') e := by
  intro e he
  rcases List.mem_cons.1 he with rfl | he
  · exact ⟨e, List.mem_cons_self .., rfl, le_rfl⟩
  · obtain ⟨g', hg, hn⟩ := hm e he
    exact ⟨g', List.mem_cons_of_mem _ hg, hn⟩

theorem Kept.mono {past : List (Ev α)} (hk : Kept h past) (hm : ∀ e ∈ h, Covers h' e) :
    Kept h' past := by
  induction past generalizing h h' with
  | nil => trivial
  | cons x past ih =>
    cases x with
    | came e =>
      obtain ⟨⟨g, hg, hn, hl⟩, hk⟩ := hk
      obtain ⟨g', hg', hn', hl'⟩ := hm g hg
      exact ⟨⟨g', hg', hn'.trans hn, hl.trans hl'⟩, ih hk hm⟩
    | given g => exact ih (h := g :: h) hk (Covers.cons hm g)

theorem Kept.covered {h : List (Event α)} {e : Event α} {before : List (Ev α)} :
    (later : List (Ev α)) → Kept h (later ++ .came e :: before) →
      ∃ g, (.given g ∈ later ∨ g ∈ h) ∧ g.name = e.name ∧ e.kinds ≤ g.kinds
  | [], ⟨⟨g, hg, hc⟩, _⟩ => ⟨g, .inr hg, hc⟩
  | .came _ :: later, ⟨_, hk⟩ => by
    obtain ⟨g, hg, hc⟩ := covered later hk
    exact ⟨g, hg.imp_left (List.mem_cons_of_mem _), hc⟩
  | .given g' :: later, hk => by
    obtain ⟨g, hg | hg, hc⟩ := covered later hk
    · exact ⟨g, .inl (List.mem_cons_of_mem _ hg), hc⟩
    · rcases List.mem_cons.1 hg with rfl | hg
      · exact ⟨g, .inl (List.mem_cons_self ..), hc⟩
      · exact ⟨g, .inr hg, hc⟩

variable [DecidableEq α] {c : Cfg α} {s t : St α} {l : Lbl α} {i : Nat}

/-- In coalesced mode with debounce no collapsed event waits when a change comes. -/
def Prompt (c : Cfg α) (s : St α) : Lbl α → Prop
  | .change e => c.coalesce = true → c.debounce = true → c.accepts e.name = true → s.held = []
  | _ => True

/-- What is still to be delivered, with the event the timer will make. -/
def St.holding (s : St α) : List (Event α) := s.held ++ if s.dirty then [⟨none, s.pending⟩] else []

/-- The quiet timer is armed with debounce only, in coalesced mode over an empty table. -/
def Quiet (c : Cfg α) (s : St α) : Prop :=
  s.dirty = true → c.debounce = true ∧ (c.coalesce = true → s.held = [])

/-- A change comes: in coalesced mode it is merged; the ring buffer gets it as its last event, or
the event to be made by the timer is widened. -/
inductive Comes (c : Cfg α) (e : Event α) (h : List (Event α)) : List (Event α) → Prop
  | merged (hc : c.coalesce = true) : Comes c e h (merge h e)
  | pushed (hc : c.coalesce = false) : Comes c e h (h ++ [e])
  | widened (hc : c.coalesce = false) (hd : c.debounce = true) (l : List (Event α)) (k : Kinds) (hn : e.name = none)
      (hh : h = l ++ [⟨none, k⟩]) : Comes c e h (l ++ [⟨none, k ⊔ e.kinds⟩])

/-- What a step does to the events still to be delivered. -/
inductive Effect (c : Cfg α) (s t : St α) : Prop
  | same (hh : t.holding = s.holding) (hp : t.past = s.past)
  | came (e : Event α) (hh : Comes c e s.holding t.holding) (hp : t.past = .came e :: s.past)
  | given (e : Event α) (hh : s.holding = e :: t.holding) (hp : t.past = .given e :: s.past)

variable {e : Event α}

theorem onFsEvent_effect (hq : Quiet c s) (hG : Prompt c s (.change e)) :
    Effect c s (onFsEvent c s e) ∧ Quiet c (onFsEvent c s e) := by
  unfold onFsEvent
  split
  · exact ⟨.same rfl rfl, hq⟩
  by_cases hd : c.debounce = true
  · simp only [hd, if_true]
    split
    · rename_i ha
      refine ⟨.came ⟨none, e.kinds⟩ ?_ rfl, fun _ => ⟨hd, fun hc => hG hc hd ha⟩⟩
      cases hc : c.coalesce
      · cases hdi : s.dirty
        · simpa [St.holding, hdi] using Comes.pushed hc
        · simpa [St.holding, hdi] using Comes.widened hc hd s.held s.pending rfl rfl
      · have hm := Comes.merged (e := ⟨none, e.kinds⟩) (h := s.holding) hc
        cases hdi : s.dirty <;> simpa [St.holding, hdi, hG hc hd ha, merge] using hm
    · exact ⟨.same rfl rfl, hq⟩
  · have hdi : s.dirty = false := Bool.eq_false_iff.2 fun h => hd (hq h).1
    simp only [hd]
    refine ⟨.came e ?_ rfl, fun h => absurd (hdi ▸ h) nofun⟩
    cases hc : c.coalesce
    · simpa [St.holding, hdi] using Comes.pushed hc
    · simpa [St.holding, hdi] using Comes.merged hc

theorem Effect.notify (h : Effect c s t) : Effect c s (notify t) := by
  cases h with
  | same hh hp => exact .same hh hp
  | came e hh hp => exact .came e hh hp
  | given e hh hp => exact .given e hh hp

theorem flush_effect (hq : Quiet c s) : Effect c s (flush c s) ∧ Quiet c (flush c s) := by
  unfold flush
  split
  · rename_i hdi
    refine ⟨.same ?_ rfl, nofun⟩
    by_cases hc : c.coalesce = true
    · simp [St.holding, trigger, hdi, (hq hdi).2 hc]
    · simp [St.holding, trigger, hdi, hc]
  · exact ⟨.same rfl rfl, hq⟩

theorem step_effect (hq : Quiet c s) (hG : Prompt c s l) (hs : step c s l = some t) : Effect c s t ∧ Quiet c t := by
  cases l with
  | change e =>
    obtain ⟨h, hq'⟩ := onFsEvent_effect hq hG
    cases hs
    split
    · exact ⟨h, hq'⟩
    · exact ⟨h.notify, hq'⟩
  | timer =>
    cases hs
    split
    · exact ⟨.same rfl rfl, hq⟩
    · exact flush_effect hq
  | forward i =>
    have hm : moveForward s i = t := by
      simp only [step] at hs
      split at hs <;> simp_all
    subst hm
    unfold moveForward
    split
    · rename_i e held hh
      refine ⟨.given e (by simp [St.holding, hh]) rfl, fun hdi => ⟨(hq hdi).1, fun hc => ?_⟩⟩
      exact absurd (hh ▸ (hq hdi).2 hc) nofun
    · exact ⟨.same rfl rfl, hq⟩
  | error =>
    cases hs
    split <;> exact ⟨.same rfl rfl, hq⟩
  | close =>
    cases hs
    unfold doClose
    split
    · exact ⟨.same rfl rfl, hq⟩
    · split <;> exact ⟨.same rfl rfl, hq⟩
  | deliver =>
    obtain ⟨-, ⟨⟩⟩ := Option.ite_none_right_eq_some.1 hs
    exact ⟨.same rfl rfl, hq⟩
  | iterate | cancel i =>
    cases hs
    exact ⟨.same rfl rfl, hq⟩

theorem merge_covers (h : List (Event α)) (e : Event α) : ∀ x ∈ e :: h, Covers (merge h e) x := by
  induction h with
  | nil => exact fun x hx => ⟨x, hx, rfl, le_rfl⟩
  | cons y h ih =>
    intro x hx
    simp only [List.mem_cons, merge] at hx ⊢
    split
    · rename_i hy
      rcases hx with rfl | rfl | hx
      · exact ⟨_, List.mem_cons_self .., hy, le_sup_right⟩
      · exact ⟨_, List.mem_cons_self .., rfl, le_sup_left⟩
      · exact ⟨x, List.mem_cons_of_mem _ hx, rfl, le_rfl⟩
    · rw [or_left_comm] at hx
      exact Covers.cons ih y x (by simpa using hx)

theorem Comes.covers (hc : Comes c e h h') : ∀ x ∈ e :: h, Covers h' x := by
  cases hc with
  | merged => exact merge_covers h e
  | pushed => exact fun x hx => ⟨x, by simpa [or_comm] using hx, rfl, le_rfl⟩
  | widened _ _ l k hn hh =>
    subst hh
    intro x hx
    rcases List.mem_cons.1 hx with rfl | hx
    · exact ⟨⟨none, k ⊔ x.kinds⟩, List.mem_concat_self, hn.symm, le_sup_right⟩
    rcases List.mem_append.1 hx with hx | hx
    · exact ⟨x, by simp [hx], rfl, le_rfl⟩
    · rw [List.mem_singleton.1 hx]
      exact ⟨⟨none, k ⊔ e.kinds⟩, List.mem_concat_self, rfl, le_sup_left⟩

theorem Effect.kept (h : Effect c s t) (hk : Kept s.holding s.past) : Kept t.holding t.past := by
  cases h with
  | same hh hp => rwa [hh, hp]
  | came e hh hp =>
    rw [hp]
    exact ⟨hh.covers e (List.mem_cons_self ..), hk.mono fun x hx => hh.covers x (List.mem_cons_of_mem _ hx)⟩
  | given e hh hp =>
    rw [hp, Kept, ← hh]
    exact hk

/-- The changes that came, and the events that were given, the latest first. -/
def arrivals (past : List (Ev α)) : List (Event α) := past.filterMap fun | .came e => some e | .given _ => none

def deliveries (past : List (Ev α)) : List (Event α) := past.filterMap fun | .given e => some e | .came _ => none

theorem Effect.inOrder (h : Effect c s t) (hc : c.coalesce = false) (hd : c.debounce = false)
    (hk : arrivals s.past = s.holding.reverse ++ deliveries s.past) :
    arrivals t.past = t.holding.reverse ++ deliveries t.past := by
  cases h with
  | same hh hp => rwa [hh, hp]
  | came e hh hp =>
    rw [hp]
    generalize t.holding = h at hh
    cases hh with
    | merged hc' => exact absurd (hc.symm.trans hc') nofun
    | pushed => simpa [arrivals, deliveries] using hk
    | widened _ hd' => exact absurd (hd.symm.trans hd') nofun
  | given e hh hp =>
    rw [hp]
    simpa [arrivals, deliveries, hh] using hk

/-- The kinds seen for a key since it was last delivered. -/
def since (n : Option α) : List (Ev α) → Kinds
  | [] => ⊥
  | .came e :: before => if e.name = n then since n before ⊔ e.kinds else since n before
  | .given g :: before => if g.name = n then ⊥ else since n before

/-- Every event given had exactly those. -/
def Exact : List (Ev α) → Prop
  | [] => True
  | .came _ :: before => Exact before
  | .given g :: before => g.kinds = since g.name before ∧ Exact before

theorem Exact.given {g : Event α} {before : List (Ev α)} :
    (later : List (Ev α)) → Exact (later ++ .given g :: before) → g.kinds = since g.name before
  | [], h => h.1
  | .came _ :: later, h => given later h
  | .given _ :: later, h => given later h.2

def kindsOf (n : Option α) : List (Event α) → Kinds
  | [] => ⊥
  | e :: h => if e.name = n then e.kinds else kindsOf n h

theorem kindsOf_absent {n : Option α} (hn : n ∉ h.map Event.name) : kindsOf n h = ⊥ := by
  induction h with
  | nil => rfl
  | cons x h ih =>
    simp only [List.map_cons, List.mem_cons, not_or] at hn
    rw [kindsOf, if_neg (Ne.symm hn.1), ih hn.2]

theorem kindsOf_merge (n : Option α) (h : List (Event α)) (e : Event α) :
    kindsOf n (merge h e) = if e.name = n then kindsOf n h ⊔ e.kinds else kindsOf n h := by
  induction h with
  | nil => simp [merge, kindsOf]
  | cons x h ih =>
    unfold merge
    split
    · rename_i hx
      simp only [kindsOf, hx]
      split <;> rfl
    · rename_i hx
      simp only [kindsOf, ih]
      by_cases hn : x.name = n
      · rw [if_pos hn, if_pos hn, if_neg fun he => hx (hn.trans he.symm)]
      · rw [if_neg hn, if_neg hn]

theorem mem_names_merge {n : Option α} (hn : n ∈ (merge h e).map Event.name) :
    n = e.name ∨ n ∈ h.map Event.name := by
  induction h with
  | nil => simpa [merge] using hn
  | cons x h ih =>
    unfold merge at hn
    split at hn
    · exact .inr hn
    · rcases List.mem_cons.1 hn with rfl | hn
      · exact .inr (List.mem_cons_self ..)
      · exact (ih hn).imp_right (List.mem_cons_of_mem _)

theorem merge_nodup (hn : (h.map Event.name).Nodup) (e : Event α) :
    ((merge h e).map Event.name).Nodup := by
  induction h with
  | nil => simp [merge]
  | cons x h ih =>
    unfold merge
    split
    · exact hn
    · rename_i hx
      obtain ⟨hxh, hn⟩ := List.nodup_cons.1 hn
      exact List.nodup_cons.2 ⟨fun hm => (mem_names_merge hm).elim hx hxh, ih hn⟩

/-- In coalesced mode there is one entry for each key, with the kinds since its last delivery. -/
structure Tallied (s : St α) : Prop where
  nodup : (s.holding.map Event.name).Nodup
  since : ∀ n, since n s.past = kindsOf n s.holding
  exact : Exact s.past

theorem Effect.tallied (h : Effect c s t) (hc : c.coalesce = true) (hk : Tallied s) : Tallied t := by
  cases h with
  | same hh hp => exact ⟨hh ▸ hk.nodup, fun n => by rw [hh, hp, hk.since], hp ▸ hk.exact⟩
  | came e hh hp =>
    have hm : t.holding = merge s.holding e := by
      generalize t.holding = h at hh
      cases hh with
      | merged => rfl
      | pushed hc' | widened hc' => exact absurd (hc.symm.trans hc') nofun
    refine ⟨hm ▸ merge_nodup hk.nodup e, fun n => ?_, hp ▸ hk.exact⟩
    rw [hp, hm, kindsOf_merge, ← hk.since]
    rfl
  | given e hh hp =>
    have hn := hk.nodup
    rw [hh, List.map_cons, List.nodup_cons] at hn
    refine ⟨hn.2, fun n => ?_, ?_⟩
    · rw [hp, Watcher.since, hk.since, hh, kindsOf]
      split
      · rename_i hen
        rw [kindsOf_absent (hen ▸ hn.1)]
      · rfl
    · rw [hp]
      exact ⟨by rw [hk.since, hh, kindsOf, if_pos rfl], hk.exact⟩

theorem delivery_inductive (c : Cfg α) : ((lts c).restrict (Prompt c)).Inductive fun s => Quiet c s ∧
    Kept s.holding s.past ∧
    (c.coalesce = false → c.debounce = false → arrivals s.past = s.holding.reverse ++ deliveries s.past) ∧
    (c.coalesce = true → Tallied s) where
  init s hs := by
    rw [show s = init from hs]
    exact ⟨nofun, trivial, fun _ _ => rfl, fun _ => ⟨List.nodup_nil, fun _ => rfl, trivial⟩⟩
  step s l t h hst := by
    obtain ⟨he, hq⟩ := step_effect h.1 hst.1 hst.2
    exact ⟨hq, he.kept h.2.1, fun hc hd => he.inOrder hc hd (h.2.2.1 hc hd), fun hc => he.tallied hc (h.2.2.2 hc)⟩

/-- **No change is forgotten.** The kinds of a change are in an event given later or still held;
in raw mode without debounce the events given and held are the changes, in order; in coalesced mode
an event given has exactly the kinds seen for its key since the last one given for it. -/
theorem no_change_is_forgotten (c : Cfg α) (s : St α) (hr : ((lts c).restrict (Prompt c)).Reachable s) :
    (∀ later e before, s.past = later ++ .came e :: before →
      ∃ g, (.given g ∈ later ∨ g ∈ s.holding) ∧ g.name = e.name ∧ e.kinds ≤ g.kinds) ∧
    (c.coalesce = false → c.debounce = false → arrivals s.past = s.held.reverse ++ deliveries s.past) ∧
    (c.coalesce = true → ∀ later g before, s.past = later ++ .given g :: before → g.kinds = since g.name before) := by
  obtain ⟨hq, hk, ho, ht⟩ := (delivery_inductive c).reachable s hr
  refine ⟨fun later e before hp => (hp ▸ hk).covered, fun hc hd => ?_, fun hc later g before hp => ?_⟩
  · have hdi : s.dirty = false := Bool.eq_false_iff.2 fun h => absurd (hd.symm.trans (hq h).1) nofun
    simpa [St.holding, hdi] using ho hc hd
  · exact (hp ▸ (ht hc).exact).given

instance (c : Cfg α) (s : St α) : (l : Lbl α) → Decidable (Prompt c s l)
  | .change _ => inferInstanceAs (Decidable (_ → _))
  | .iterate | .error | .timer | .deliver | .forward _ | .cancel _ | .close => isTrue trivial

/-- Two changes of one file, coalesced, are given as one event. -/
theorem no_change_is_forgotten_two : ∃ g : Event Nat, g.name = some 7 ∧ g.kinds = (true, true) := by
  obtain ⟨s, hr, hp, hh⟩ := LTS.existsG_from (f := step (α := Nat) ⟨true, false, fun _ => true⟩)
    (G := Prompt ⟨true, false, fun _ => true⟩) (P := fun s =>
      s.past = [.given ⟨some 7, (true, true)⟩, .came ⟨some 7, (false, true)⟩, .came ⟨some 7, (true, false)⟩]
        ∧ s.holding = []) init
    [.iterate, .change ⟨some 7, (true, false)⟩, .change ⟨some 7, (false, true)⟩, .forward 0]
    (by decide +kernel)
  exact ⟨⟨some 7, (true, true)⟩, rfl, (no_change_is_forgotten _ s hr).2.2 rfl [] _ _ hp⟩

/-- **Counterexample.** Two bursts, collapsed one after the other, before the iterator takes an event: the
kinds of the second are neither given nor held. -/
theorem second_burst_is_dropped : ∃ s : St Nat, (lts ⟨true, true, fun _ => true⟩).Reachable s ∧ s.closed = false ∧
    s.past = [.given ⟨none, (true, false)⟩, .came ⟨none, (false, true)⟩, .came ⟨none, (true, false)⟩] ∧
    s.holding = [] :=
  LTS.exists_from (f := step (α := Nat) ⟨true, true, fun _ => true⟩) init
    [.iterate, .change ⟨some 7, (true, false)⟩, .timer, .change ⟨some 7, (false, true)⟩, .timer, .forward 0]
    (by decide +kernel)

end PhpAsync.L2.Watcher
