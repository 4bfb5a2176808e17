import Mathlib.Logic.Function.Basic
import PhpAsync.L2Channel.Deadlock
import PhpAsync.L2Channel.Effects

/-!
# `Async\Channel`: the registry of the deadlock resolver

`ASYNC_G(deadlock_channels)` is to hold the channels with an armed soft timer, and
`async_channel_resolve_deadlocks` closes those it finds there. Any number of channels, each
with the steps of its own; a channel that is freed leaves what it has left in the registry.

**Hypothesis** (`Starts`): the timer of a channel with soft timeouts does not fail to start,
once it is created. The channel is registered before the start, and where the start fails it
stays registered; `channel_disarm_deadlock_timer` returns at once where there is no timer.

**Results.**
* `Sound.step`: what one step of a channel keeps.
* `registry_consistent`: the registry is as described, and the resolver visits no channel that
  is freed or has no armed timer.
* `freed_channel_is_visited`: without the hypothesis it does.
-/
namespace PhpAsync.L2.Channel

open PhpAsync.Core PhpAsync.L1

variable {V : Type}

/-! ## One channel -/

/-- The channel is registered as long as it has an armed soft timer. -/
structure Tied (s : St V) : Prop where
  starts : s.hardTimeouts = false → ∀ n, s.timer.answers n ≠ .notStarted
  registered : s.timer.registered = true ↔ s.timer.armed = true ∧ s.hardTimeouts = false

section Tied

variable {s t : St V}

theorem Tied.of_eq (h : Tied s) (he : (t.timer, t.hardTimeouts) = (s.timer, s.hardTimeouts)) : Tied t := by
  obtain ⟨ht, hh⟩ := Prod.mk.inj he
  exact ⟨by rw [ht, hh]; exact h.starts, by rw [ht, hh]; exact h.registered⟩

theorem Tied.disarm (h : Tied s) : Tied (disarmDeadlockTimer s) := by
  unfold disarmDeadlockTimer
  split
  · exact ⟨h.starts, by simp⟩
  · exact h

theorem Tied.arm (h : Tied s) (r : CloseReason) (n : Nat) : Tied (armDeadlockTimer s r n) := by
  unfold armDeadlockTimer
  split
  · exact h
  rename_i hn
  have hoff : s.timer.armed = false := by simpa using fun ha => hn (.inr (.inl ha))
  have hreg : s.timer.registered = false := by simpa [hoff] using h.registered
  split
  · exact ⟨h.starts, h.registered⟩
  · rename_i hns
    have hhard : s.hardTimeouts = true := by simpa using fun hs => h.starts hs _ hns
    exact ⟨h.starts, by simp [hoff, hreg, hhard]⟩
  · exact ⟨h.starts, by simp [hreg]⟩

theorem Tied.refresh (h : Tied s) : Tied (refreshDeadlockTimer s) := by
  unfold refreshDeadlockTimer
  dsimp only
  split
  · exact h.disarm
  split <;>
  · split
    · exact h
    · exact h.disarm.arm _ _

theorem Effect.tied {P Q E : Prop} {c d : Cfg V} (he : Effect P Q E c d) (h : Tied c.st) : Tied d.st := by
  cases he with
  | @frame s _ _ timer ht =>
    have hr : ∀ {u : St V}, Tied u → u.hardTimeouts = s.hardTimeouts → Tied { s with timer := u.timer } :=
      fun hu he => ⟨by simpa only [he] using hu.starts, by simpa only [he] using hu.registered⟩
    obtain rfl | ⟨u, hu, rfl | rfl⟩ := ht
    · exact h.of_eq rfl
    · obtain ⟨t, ht⟩ := refresh_eq u
      exact (hr (h.of_eq hu).refresh (by rw [ht]; exact (Prod.mk.inj hu).2)).of_eq rfl
    · obtain ⟨t, ht⟩ := disarm_eq u
      exact (hr (h.of_eq hu).disarm (by rw [ht]; exact (Prod.mk.inj hu).2)).of_eq rfl
  | @take s =>
    obtain ⟨l, o, b, ht⟩ := takeValue_rest s
    rw [ht]; exact h.of_eq rfl
  | _ => exact h.of_eq rfl

def Sound (s : St V) : Prop := Inv s.toChan ∧ Tied s

/-- **One step of a channel.** -/
theorem Sound.step {l : Lbl V} (h : Sound s) (hs : step s l = some t) : Sound t :=
  ⟨step_inv h.1 hs, (step_effects h.1 False.elim False.elim False.elim hs).keeps (I := fun c => Tied c.st)
    (fun _ _ he => he.tied) h.2⟩

theorem Sound.close (h : Sound s) (r : CloseReason) : Sound (close s r) :=
  ⟨close_inv h.1 r, (close_effects (P := False) (E := False) h.1 r False.elim).keeps (I := fun c => Tied c.st)
    (fun _ _ he => he.tied) h.2⟩

end Tied

/-! ## All channels -/

/-- `freed`: whether its entry is still in the registry. -/
inductive Slot (V : Type) where
  | unused
  | live (s : St V)
  | freed (registered : Bool)

def Slot.registered : Slot V → Bool
  | .unused => false
  | .live s => s.timer.registered
  | .freed r => r

/-- The channel holds an armed soft timer. -/
def Slot.armed : Slot V → Bool
  | .live s => s.timer.armed && !s.hardTimeouts
  | _ => false

def Slot.isFreed : Slot V → Bool
  | .freed _ => true
  | _ => false

/-- `strayed`: the resolver has visited a channel that was freed or had no armed timer. -/
structure World (V : Type) where
  slot : Nat → Slot V
  made : Nat
  strayed : Bool

def World.registry (w : World V) : List Nat := (List.range w.made).filter fun i => (w.slot i).registered

def World.put (w : World V) (i : Nat) (x : Slot V) : World V := { w with slot := Function.update w.slot i x }

/-- One turn of the loop of the resolver; `close` does nothing to a closed channel. -/
def visit (w : World V) (i : Nat) : World V :=
  let x := match w.slot i with
    | .live s => .live (close s .deadlock)
    | z => z
  { w.put i x with strayed := w.strayed || !(w.slot i).armed }

inductive Act (V : Type) where
  | create (capacity noProducer noConsumer : Int) (hard : Bool) (answers : Nat → TimerAnswer)
  | on (i : Nat) (l : Lbl V)
  | free (i : Nat)
  | resolve

/-- The resolver goes through a snapshot. The destructor, which closes the channel, is a step of
the channel.
mirrors channel.c:640-670, 918-937 -/
def act (w : World V) : Act V → Option (World V)
  | .create c p q hard answers =>
    match construct c p q hard answers with
    | .ok s => some { w.put w.made (.live s) with made := w.made + 1 }
    | .error _ => none
  | .on i l =>
    match w.slot i, l with
    | _, .resolveDeadlocks => none
    | .live s, l => (step s l).map fun t => w.put i (.live t)
    | _, _ => none
  | .free i =>
    match w.slot i with
    | .live s => some (w.put i (.freed (disarmDeadlockTimer s).timer.registered))
    | _ => none
  | .resolve => some (w.registry.foldl visit w)

def nobody : World V := ⟨fun _ => .unused, 0, false⟩

def worlds (V : Type) : LTS (World V) (Act V) := LTS.ofFn (· = nobody) act

/-- See the module doc. -/
def Starts (_ : World V) : Act V → Prop
  | .create _ _ _ hard answers => hard = false → ∀ n, answers n ≠ .notStarted
  | _ => True

/-! ## Runs -/

structure Consistent (w : World V) : Prop where
  live : ∀ i s, w.slot i = .live s → Sound s
  freed : ∀ i, w.slot i ≠ .freed true
  fresh : ∀ i, w.made ≤ i → w.slot i = .unused
  strayed : w.strayed = false

section Consistent

variable {w w' : World V} {i : Nat}

theorem Consistent.registered_eq (h : Consistent w) (i : Nat) : (w.slot i).registered = (w.slot i).armed := by
  cases hi : w.slot i with
  | unused => rfl
  | live s =>
    rw [Bool.eq_iff_iff]
    simpa [Slot.registered, Slot.armed] using (h.live i s hi).2.registered
  | freed r =>
    cases r with
    | false => rfl
    | true => exact absurd hi (h.freed i)

/-- One channel changes. -/
theorem Consistent.put (h : Consistent w) {x : Slot V} (hl : ∀ s, x = .live s → Sound s) (hf : x ≠ .freed true)
    {n : Nat}
    (hn : w.made ≤ n) (hi : i < n) {b : Bool} (hb : b = false) :
    Consistent { w.put i x with made := n, strayed := b } := by
  have hput : ∀ j, (w.put i x).slot j = if j = i then x else w.slot j := fun j => Function.update_apply ..
  refine ⟨fun j s hj => ?_, fun j => ?_, fun j hj => ?_, hb⟩
  · have hj' := (hput j).symm.trans hj
    split at hj'
    · exact hl s hj'
    · exact h.live j s hj'
  · refine fun hj => ?_
    have hj' := (hput j).symm.trans hj
    split at hj'
    · exact hf hj'
    · exact h.freed j hj'
  · refine (hput j).trans ?_
    have hj' : n ≤ j := hj
    rw [if_neg (by omega)]
    exact h.fresh j (Nat.le_trans hn hj')

theorem Consistent.lt_made (h : Consistent w) {x : Slot V} (hi : w.slot i = x) (hx : x ≠ .unused) : i < w.made :=
  Nat.lt_of_not_le fun hle => hx (hi.symm.trans (h.fresh i hle))

theorem Consistent.putLive (h : Consistent w) {s t : St V} (hi : w.slot i = .live s) (ht : Sound t) {b : Bool}
    (hb : b = false) :
    Consistent { w.put i (.live t) with strayed := b } :=
  h.put (x := .live t) (fun _ he => by cases he; exact ht) nofun (Nat.le_refl _) (h.lt_made hi nofun) hb

/-- A registered channel is alive and armed. -/
theorem Consistent.visit (h : Consistent w) (hi : (w.slot i).registered = true) : Consistent (visit w i) := by
  have ha := (h.registered_eq i).symm.trans hi
  unfold Channel.visit
  cases hs : w.slot i with
  | live s =>
    rw [hs] at ha
    exact h.putLive hs ((h.live i s hs).close _) (by simp [h.strayed, ha])
  | unused => rw [hs] at ha; cases ha
  | freed r => rw [hs] at ha; cases ha

/-- The visits of the others do not change a channel of the snapshot. -/
theorem Consistent.visits : ∀ (l : List Nat) {w : World V}, l.Nodup → (∀ i ∈ l, (w.slot i).registered = true) →
    Consistent w → Consistent (l.foldl Channel.visit w)
  | [], _, _, _, h => h
  | i :: l, w, hn, hl, h => by
    obtain ⟨hi, hn⟩ := List.nodup_cons.1 hn
    refine visits l hn (fun j hj => ?_) (h.visit (hl i List.mem_cons_self))
    have hne : j ≠ i := fun he => hi (he ▸ hj)
    have hsame : (Channel.visit w i).slot j = w.slot j := Function.update_of_ne hne ..
    rw [hsame]
    exact hl j (List.mem_cons_of_mem i hj)

theorem Consistent.act (h : Consistent w) {a : Act V} (hg : Starts w a) (hs : act w a = some w') : Consistent w' := by
  cases a with
  | create c p q hard answers =>
    simp only [Channel.act] at hs
    split at hs <;> cases hs
    rename_i s hc
    obtain ⟨c', p', q', rfl⟩ := construct_fresh hc
    exact h.put (x := .live _) (fun _ he => by cases he; exact ⟨fresh_inv .., hg, nofun, nofun⟩) nofun (Nat.le_succ _) (Nat.lt_succ_self _) h.strayed
  | on i l =>
    simp only [Channel.act] at hs
    split at hs
    · cases hs
    · rename_i s hi _
      obtain ⟨t, ht, rfl⟩ := Option.map_eq_some_iff.1 hs
      exact h.putLive hi ((h.live i s hi).step ht) h.strayed
    · cases hs
  | free i =>
    simp only [Channel.act] at hs
    split at hs <;> cases hs
    rename_i s hi
    have hd := (h.live i s hi).2.disarm
    refine h.put (x := .freed _) nofun (fun he => ?_) (Nat.le_refl _) (h.lt_made hi nofun) h.strayed
    have hr := (hd.registered.1 (by simpa using he)).1
    rw [disarm_armed] at hr
    cases hr
  | resolve =>
    cases hs
    exact Consistent.visits _ (List.nodup_range.filter _) (fun i hi => (List.mem_filter.1 hi).2) h

end Consistent

theorem consistent_inductive : ((worlds V).restrict Starts).Inductive Consistent where
  init w hw := by
    rw [show w = nobody from hw]
    exact ⟨nofun, nofun, fun _ _ => rfl, rfl⟩
  step _ _ _ h hs := h.act hs.1 hs.2

/-- **The registry of the deadlock resolver.** In every run over any number of channels in which
no soft timer fails to start, a channel is registered exactly when it holds an armed soft timer,
and the resolver has visited no channel that was freed or had no armed timer. -/
theorem registry_consistent (w : World V) (hr : ((worlds V).restrict Starts).Reachable w) :
    (∀ i, i ∈ w.registry ↔ (w.slot i).armed = true) ∧ w.strayed = false := by
  have h := consistent_inductive.reachable w hr
  refine ⟨fun i => ?_, h.strayed⟩
  rw [World.registry, List.mem_filter, h.registered_eq i, List.mem_range]
  refine and_iff_right_of_imp fun ha => h.lt_made rfl fun hu => ?_
  rw [hu] at ha
  cases ha

/-- A receiver waits on the second of two channels; the first one has hard timeouts, and its
timers fail to start. -/
theorem registry_consistent_two : ∃ w : World Nat, ((worlds Nat).restrict Starts).Reachable w ∧
    w.registry = [1] ∧ (w.slot 1).armed = true ∧ (w.slot 0).armed = false ∧ w.strayed = false := by
  obtain ⟨w, hr, hreg⟩ : ∃ w : World Nat, ((worlds Nat).restrict Starts).Reachable w ∧ w.registry = [1] := by
    have h0 : ((worlds Nat).restrict Starts).Reachable nobody := ⟨nobody, [], rfl, .nil _⟩
    have h1 := h0.step (l := Act.create 0 1000 1000 true fun _ => .notStarted) (And.intro nofun rfl)
    have h2 := h1.step (l := Act.create 0 1000 1000 false fun _ => .started) (And.intro nofun rfl)
    have h3 := h2.step (l := Act.on 0 (.recv none)) (And.intro trivial rfl)
    exact ⟨_, h3.step (l := Act.on 1 (.recv none)) (And.intro trivial rfl), by decide +kernel⟩
  obtain ⟨hall, hs⟩ := registry_consistent w hr
  refine ⟨w, hr, hreg, (hall 1).1 (by simp [hreg]), ?_, hs⟩
  simpa [hreg] using (hall 0).not

/-- **Counterexample.** A receiver waits on a channel with soft timeouts whose timer fails to
start: the channel is registered without a timer. It is closed and freed, and the resolver
visits it. -/
theorem freed_channel_is_visited :
    (∃ w : World Nat, (worlds Nat).Reachable w ∧ w.registry = [0] ∧ (w.slot 0).armed = false) ∧
    ∃ w : World Nat, (worlds Nat).Reachable w ∧ w.registry = [0] ∧ (w.slot 0).isFreed = true ∧ w.strayed = true := by
  constructor
  · exact LTS.exists_from nobody [.create 0 1000 1000 false fun _ => .notStarted, .on 0 (.recv none)] (by decide +kernel)
  · exact LTS.exists_from nobody [.create 0 1000 1000 false fun _ => .notStarted, .on 0 (.recv none),
      .on 0 (.close .disposed), .free 0, .resolve] (by decide +kernel)

end PhpAsync.L2.Channel
