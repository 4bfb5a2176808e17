import PhpAsync.L2ThreadChannel.Model

/-!
# No wakeup is lost

A call registers its trigger under the lock it found the buffer full (or empty) under, and
who changes that fires every trigger of the other side. So a waiting call whose trigger
has not been fired has nothing to be woken for (`Awake`).

* `parked_call_is_heard`
-/
namespace PhpAsync.L2.ThreadChannel

open PhpAsync.Core PhpAsync.L1

variable {V : Type} {c i : Nat} {s t : St V} {p q : Call V} {B : Kind V → Prop}

/-- In the table and suspended, or about to be. -/
def Phase.waits : Phase → Bool
  | .registered => true
  | .parked => true
  | _ => false

/-- There is nothing to wake such a call for. -/
def Blocked (capacity : Nat) (s : St V) : Kind V → Prop
  | .send _ => s.closed = false ∧ capacity ≤ s.buffer.length
  | .receive => s.closed = false ∧ s.buffer = []
  | .waitOnly => s.closed = false

/-- A waiting call can be fired, and was fired unless its kind is in `B`. -/
def Heard (B : Kind V → Prop) (p : Call V) : Prop :=
  p.phase.waits = true → p.listed = true ∧ (p.signalled = false → B p.kind)

theorem wake_waits (c : Nat) (s : St V) (p : Call V) (thrown : Bool) : (wake c s p thrown).waits = false := by
  unfold wake
  repeat' split
  all_goals rfl

/-- A call that waits after a step of its own waited before. -/
theorem own_waits {e : Event} (hq : own c s p e = some q) (hw : q.phase.waits = true) :
    p.phase.waits = true ∧ q.listed = p.listed ∧ q.signalled = p.signalled ∧ q.kind = p.kind := by
  cases e with
  | suspend => grind [own, Phase.waits]
  | wake => grind [wake_waits, own]
  | recheck => grind [own, Phase.waits]
  | _ =>
    simp only [own] at hq
    split at hq <;> cases hq <;> cases hw

theorem Heard.own {e : Event} (h : Heard B p) (hq : own c s p e = some q) : Heard B q := by
  intro hw
  obtain ⟨hp, h1, h2, h3⟩ := own_waits hq hw
  rw [h1, h2, h3]
  exact h hp

/-- Calls of the table that is fired are fired. -/
theorem Heard.fire (h : Heard B p) (b : Bool) : Heard (fun k => B k ∧ k.isSender = !b) (fire b p) := by
  unfold ThreadChannel.fire
  split
  · exact fun hw => ⟨(h hw).1, nofun⟩
  · grind [Heard, fire, Kind.isSender]

def AllHeard (B : Kind V → Prop) (s : St V) : Prop := ∀ p ∈ s.calls, Heard B p

theorem AllHeard.mono {B' : Kind V → Prop} (h : AllHeard B s) (hB : ∀ k, B k → B' k) : AllHeard B' s :=
  fun p hp hw => ⟨(h p hp hw).1, fun hs => hB _ ((h p hp hw).2 hs)⟩

theorem AllHeard.set (h : AllHeard B s) (hq : Heard B q) (ht : t.calls = s.calls.set i q) : AllHeard B t := by
  intro p hp
  rw [ht] at hp
  rcases List.mem_or_eq_of_mem_set hp with hp | rfl
  · exact h p hp
  · exact hq

theorem AllHeard.append (h : AllHeard B s) (hq : q.phase.waits = false) (ht : t.calls = s.calls ++ [q]) :
    AllHeard B t := by
  intro p hp hw
  rw [ht] at hp
  rcases List.mem_append.1 hp with hp | hp
  · exact h p hp hw
  · rw [List.mem_singleton.1 hp, hq] at hw
    cases hw

theorem AllHeard.fireAll (h : AllHeard B s) (ht : t.calls = s.calls) (b : Bool) :
    AllHeard (fun k => B k ∧ k.isSender = !b) (fireAllTriggers b t) := by
  intro p hp
  obtain ⟨q, hq, rfl⟩ := List.mem_map.1 hp
  rw [ht] at hq
  exact (h q hq).fire b

theorem AllHeard.finish (h : AllHeard B s) (p : Call V) (r : Result) : AllHeard B (finish s i p r) :=
  h.set (q := { p with phase := .done r }) nofun rfl

theorem AllHeard.register (h : AllHeard B s) (hb : B p.kind) : AllHeard B (register s i p) :=
  h.set (q := { p with listed := true, phase := .registered }) (fun _ => ⟨rfl, fun _ => hb⟩) rfl

theorem push_calls (c : Nat) (s : St V) (m : Nat × V) : (push c s m).calls = s.calls := by
  unfold push
  split <;> rfl

/-- The invariant: who waits without a signal waits for something. -/
def Awake (capacity : Nat) (s : St V) : Prop := AllHeard (Blocked capacity s) s

theorem Awake.attemptSend {v : V} (h : Awake c s) (hk : p.kind = .send v) : Awake c (attemptSend c s i p v) := by
  unfold ThreadChannel.attemptSend
  split
  · exact h.finish p _
  · rename_i hopen
    split
    · -- the buffer was not full: every waiting sender had been fired
      rename_i hlt
      refine AllHeard.finish (AllHeard.mono (h.fireAll (push_calls ..) false) fun k hB => ?_) p _
      cases k with
      | send _ => exact absurd hB.1.2 (by omega)
      | _ => cases hB.2
    · rename_i hfull
      exact h.register (by rw [hk]; exact ⟨by simpa using hopen, by omega⟩)

theorem Awake.attemptReceive {w : Bool} (h : Awake c s)
    (hk : s.closed = false → (w = false → s.buffer = []) → Blocked c s p.kind) :
    Awake c (attemptReceive s i p w) := by
  unfold ThreadChannel.attemptReceive
  split
  · -- the buffer was not empty: every waiting receiver had been fired
    rename_i hbuf
    refine AllHeard.finish (AllHeard.mono (h.fireAll rfl true) fun k hB => ?_) p _
    cases k with
    | send _ => cases hB.2
    | receive =>
      have hnil := hB.1.2
      rw [hbuf] at hnil
      cases hnil
    | waitOnly => exact hB.1
  · rename_i hnot
    split
    · exact h.finish p _
    · rename_i hopen
      refine h.register (hk (by simpa using hopen) fun hw => ?_)
      cases hb : s.buffer with
      | nil => rfl
      | cons m rest => exact (hnot m rest hw hb).elim

theorem Awake.attempt (h : Awake c s) : Awake c (attempt c s i p) := by
  unfold ThreadChannel.attempt
  split
  · exact h.attemptSend ‹_›
  · rename_i hk
    exact h.attemptReceive fun ho he => by rw [hk]; exact ⟨ho, he rfl⟩
  · rename_i hk
    exact h.attemptReceive fun ho _ => by rw [hk]; exact ho

theorem Awake.close (h : Awake c s) : Awake c (close s) := by
  unfold ThreadChannel.close
  split
  · exact h
  · refine AllHeard.mono (AllHeard.fireAll (AllHeard.fireAll h rfl false) rfl true) fun k hB => ?_
    have h1 := hB.1.2
    have h2 := hB.2
    rw [h1] at h2
    cases h2

theorem Awake.step {l : Lbl V} (h : Awake c s) (ht : step c s l = some t) : Awake c t := by
  cases l with
  | call k e =>
    cases ht
    exact AllHeard.append h rfl rfl
  | untransferable v =>
    cases ht
    exact AllHeard.append h rfl rfl
  | attempt i =>
    obtain ⟨p, -, ht⟩ := Option.bind_eq_some_iff.1 ht
    split at ht
    · cases ht
      exact h.attempt
    · cases ht
  | own i e =>
    obtain ⟨p, hp, ht⟩ := Option.bind_eq_some_iff.1 ht
    obtain ⟨q, hq, rfl⟩ := Option.map_eq_some_iff.1 ht
    exact AllHeard.set h ((h p (List.mem_of_getElem? hp)).own hq) rfl
  | close =>
    cases ht
    exact h.close

theorem awake_inductive (V : Type) (capacity : Nat) : (lts V capacity).Inductive (Awake capacity) where
  init s hs := by
    have hs' : s = start := hs
    subst hs'
    exact nofun
  step s l t h hst := h.step hst

/-- **No lost wakeup.** A call that waits, with no signal pending on its trigger, waits for
something: a sender for room in a full buffer, a receiver for a value in an empty one, and
the channel is open. -/
theorem parked_call_is_heard (c : Nat) (s : St V) (hr : (lts V c).Reachable s) (p : Call V) (hp : p ∈ s.calls)
    (hw : p.phase.waits = true) (hs : p.signalled = false) :
    s.closed = false ∧ (p.kind.isSender = true → c ≤ s.buffer.length) ∧
      (p.kind = .receive → s.buffer = []) := by
  have hB := ((awake_inductive V c).reachable s hr p hp hw).2 hs
  cases hk : p.kind with
  | send v =>
    rw [hk] at hB
    exact ⟨hB.1, fun _ => hB.2, nofun⟩
  | receive =>
    rw [hk] at hB
    exact ⟨hB.1, nofun, fun _ => hB.2⟩
  | waitOnly =>
    rw [hk] at hB
    exact ⟨hB, nofun, nofun⟩

/-- A sender is parked on a full buffer. -/
theorem parked_call_is_heard_full : ∃ s : St Nat, s.closed = false ∧ 1 ≤ s.buffer.length := by
  obtain ⟨s, hr, hp⟩ := LTS.exists_from (f := step 1)
    (P := fun s : St Nat => ⟨.send 8, .parked, true, false, none⟩ ∈ s.calls) start
    [.call (.send 7) none, .attempt 0, .call (.send 8) none, .attempt 1, .own 1 .suspend] (by decide +kernel)
  obtain ⟨h1, h2, -⟩ := parked_call_is_heard 1 s hr _ hp rfl rfl
  exact ⟨s, h1, h2 rfl⟩

end PhpAsync.L2.ThreadChannel
