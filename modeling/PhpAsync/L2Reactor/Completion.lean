import PhpAsync.Core.LTS
import PhpAsync.L2Waker.Model

/-!
# One-shot completions

Model of libuv_reactor.c:351-384, 2765-2900, 3543-3821: the event of one DNS request or one
thread-pool task. The request runs from its submission on; `start` and `stop` only count who
is interested (`loop_ref_count`), and libuv runs the completion callback once.

`close_event` marks the event as over only if somebody is interested at that moment. A waiter
that comes first after the completion is counted and parked for good (`completion_is_missed`).

* `completion_is_seen`: who comes later sees that the event is over, if at the completion a
  waiter is started or the disposal of the event is pending (`Heard`).
-/
namespace PhpAsync.L2.Completion

open PhpAsync.Core
open PhpAsync.L2.Wakers (Event)

inductive Kind where
  | dns
  | task
  deriving DecidableEq, Repr

/-- `refs` is `ref_count` and `event.refs` is `loop_ref_count`; `count` is what the event adds
to the active event count. `done` is `LIBUV_DNS_F_CALLBACK_DONE`, for a task it says the same;
`pending` is `LIBUV_DNS_F_DISPOSE_PENDING`. -/
structure St where
  kind : Kind
  event : Event
  count : Nat
  refs : Nat
  submitted : Bool
  done : Bool
  pending : Bool
  freed : Bool
  deriving DecidableEq, Repr

/-- `libuv_getaddrinfo`, `libuv_getnameinfo` submit the request; `libuv_new_task` does not.
mirrors libuv_reactor.c:2839-2863, 3657-3686, 3791-3821 -/
def create (kind : Kind) : St := ⟨kind, ⟨0, false⟩, 0, 1, kind == .dns, false, false, false⟩

/-- mirrors libuv_reactor.c:2792-2799, 3590-3597, 3727-3734 -/
def start (s : St) : St :=
  { s with
    event := s.event.start false
    count := if s.event.closed = false ∧ s.event.refs = 0 then s.count + 1 else s.count }

/-- mirrors libuv_reactor.c:2804-2811, 3602-3609, 3739-3746 -/
def stop (s : St) : St :=
  { s with
    event := s.event.stop
    count := if s.event.closed = false ∧ s.event.refs = 1 then s.count - 1 else s.count }

/-- `loop_ref_count = 1` and `stop`, if anybody is interested. -/
def stopAll (s : St) : St := if 0 < s.event.refs then stop { s with event := { s.event with refs := 1 } } else s

/-- mirrors libuv_reactor.c:377-384 -/
def closeEvent (s : St) : St :=
  if 0 < s.event.refs then { stopAll s with event := { (stopAll s).event with closed := true } } else s

/-- `libuv_task_dispose`, `libuv_dns_*_dispose`; `ZEND_ASYNC_EVENT_RELEASE` does the same.
mirrors libuv_reactor.c:2816-2831, 3614-3651, 3751-3786 -/
def dispose (s : St) : St :=
  if 1 < s.refs then { s with refs := s.refs - 1 }
  else
    let t := stopAll s
    if s.kind = .dns ∧ s.done = false then { t with pending := true } else { t with freed := true }

/-- The completion callback.
mirrors libuv_reactor.c:2765-2788, 3543-3586, 3690-3723 -/
def complete (s : St) : St :=
  let t := { s with done := true }
  if s.pending then dispose t
  else
    match s.kind with
    | .dns => closeEvent t
    | .task => dispose (closeEvent t)

/-- The reference of work in flight. -/
def inFlight (s : St) : Nat := if s.kind = .task ∧ s.submitted ∧ s.done = false then 1 else 0

inductive Lbl where
  | start
  | stop
  | addRef
  | dispose
  /-- `libuv_queue_task` -/
  | queue
  | complete
  deriving DecidableEq, Repr

/-- Who uses the event holds a reference to it. -/
def step (s : St) : Lbl → Option St
  | .complete => if s.submitted ∧ s.done = false ∧ s.freed = false then some (complete s) else none
  | l =>
    if s.freed = false ∧ s.pending = false ∧ inFlight s < s.refs then
      match l with
      | .start => some (start s)
      | .stop => some (stop s)
      | .addRef => some { s with refs := s.refs + 1 }
      | .dispose => some (dispose s)
      | .queue => if s.submitted then none else some { s with submitted := true, refs := s.refs + 1 }
      | .complete => none
    else none

def lts (kind : Kind) : LTS St Lbl := LTS.ofFn (· = create kind) step

/-- At its completion the event has a started waiter, or its disposal is pending. -/
def Heard (s : St) : Lbl → Prop
  | .complete => 0 < s.event.refs ∨ s.pending = true
  | _ => True

instance (s : St) : ∀ l, Decidable (Heard s l)
  | .complete => inferInstanceAs (Decidable (_ ∨ _))
  | .start | .stop | .addRef | .dispose | .queue => inferInstanceAs (Decidable True)

/-- Only a completed event is closed, and it is closed then or freed. -/
structure Seen (s : St) : Prop where
  closed : s.event.closed = true → s.done = true ∧ s.event.refs = 0
  done : s.done = true → s.freed = false → s.event.closed = true
  count : s.count = if 0 < s.event.refs then 1 else 0
  pending : s.pending = true → s.refs ≤ 1

theorem stopAll_eq {s : St} (hc : s.event.closed = true → s.event.refs = 0)
    (hn : s.count = if 0 < s.event.refs then 1 else 0) :
    stopAll s = { s with event := ⟨0, s.event.closed⟩, count := 0 } := by
  obtain ⟨kind, ⟨n, closed⟩, count, refs, submitted, done, pending, freed⟩ := s
  unfold stopAll
  cases n <;> cases closed <;> simp_all [stop, Event.stop]

theorem Seen.dispose {s : St} (h : Seen s) : Seen (dispose s) := by
  unfold Completion.dispose
  split
  · exact ⟨h.closed, h.done, h.count, fun hp => by have := h.pending hp; omega⟩
  · rename_i hr
    rw [stopAll_eq (fun hc => (h.closed hc).2) h.count]
    split
    · exact ⟨fun hc => ⟨(h.closed hc).1, rfl⟩, h.done, rfl, fun _ => Nat.not_lt.1 hr⟩
    · exact ⟨fun hc => ⟨(h.closed hc).1, rfl⟩, nofun, rfl, h.pending⟩

theorem Seen.complete {s : St} (h : Seen s) (hG : Heard s .complete) : Seen (complete s) := by
  unfold Completion.complete
  split
  · rename_i hp
    unfold Completion.dispose
    rw [if_neg (Nat.not_lt.2 (h.pending hp)), stopAll_eq (s := { s with done := true }) (fun hc => (h.closed hc).2) h.count]
    simp only [Bool.true_eq_false, and_false, if_false]
    exact ⟨fun _ => ⟨rfl, rfl⟩, nofun, rfl, h.pending⟩
  · rename_i hp
    have hr : 0 < s.event.refs := hG.resolve_right hp
    have hclose : closeEvent { s with done := true } = { s with done := true, event := ⟨0, true⟩, count := 0 } := by
      unfold closeEvent
      rw [if_pos hr, stopAll_eq (s := { s with done := true }) (fun hc => (h.closed hc).2) h.count]
    have hseen : Seen (closeEvent { s with done := true }) := by
      rw [hclose]
      exact ⟨fun _ => ⟨rfl, rfl⟩, fun _ _ => rfl, rfl, fun hp' => absurd hp' hp⟩
    split
    · exact hseen
    · exact hseen.dispose

/-- Every step of a user, and the completion of an event that is heard. -/
theorem Seen.step {s t : St} {l : Lbl} (h : Seen s) (hG : Heard s l) (ht : step s l = some t) : Seen t := by
  have hstart : Seen (Completion.start s) := by
    obtain ⟨hc, hd, hn, hp⟩ := h
    refine ⟨?_, ?_, ?_, hp⟩ <;> simp only [Completion.start, Event.start] <;> grind
  have hstop : Seen (Completion.stop s) := by
    obtain ⟨hc, hd, hn, hp⟩ := h
    refine ⟨?_, ?_, ?_, hp⟩ <;> simp only [Completion.stop, Event.stop] <;> grind
  cases l with
  | complete =>
    obtain ⟨-, ⟨⟩⟩ := Option.ite_none_right_eq_some.1 ht
    exact h.complete hG
  | start =>
    obtain ⟨-, ⟨⟩⟩ := Option.ite_none_right_eq_some.1 ht
    exact hstart
  | stop =>
    obtain ⟨-, ⟨⟩⟩ := Option.ite_none_right_eq_some.1 ht
    exact hstop
  | addRef =>
    obtain ⟨hu, ⟨⟩⟩ := Option.ite_none_right_eq_some.1 ht
    exact ⟨h.closed, h.done, h.count, fun hp => absurd hp (Bool.eq_false_iff.1 hu.2.1)⟩
  | dispose =>
    obtain ⟨-, ⟨⟩⟩ := Option.ite_none_right_eq_some.1 ht
    exact h.dispose
  | queue =>
    obtain ⟨hu, ht⟩ := Option.ite_none_right_eq_some.1 ht
    obtain ⟨-, ⟨⟩⟩ := Option.ite_none_left_eq_some.1 ht
    exact ⟨h.closed, h.done, h.count, fun hp => absurd hp (Bool.eq_false_iff.1 hu.2.1)⟩

theorem seen_inductive (kind : Kind) : ((lts kind).restrict Heard).Inductive Seen where
  init s hs := by
    rw [show s = create kind from hs]
    exact ⟨nofun, nofun, rfl, nofun⟩
  step _ _ _ h hst := h.step hst.1 hst.2

/-- **No completion is missed.** If every completion is heard, then behind it the event is
closed with nobody counted, unless it is freed; and a waiter that starts it changes nothing. -/
theorem completion_is_seen (kind : Kind) (s : St) (hr : ((lts kind).restrict Heard).Reachable s)
    (hd : s.done = true) (hf : s.freed = false) :
    s.event = ⟨0, true⟩ ∧ s.count = 0 ∧ start s = s := by
  have h := (seen_inductive kind).reachable s hr
  have hc := h.done hd hf
  have hn := h.count
  have hr0 := (h.closed hc).2
  have he : s.event = ⟨0, true⟩ := by rw [← hc, ← hr0]
  refine ⟨he, by simpa [hr0] using hn, ?_⟩
  simp [start, Event.start, hc]

/-- Two waiters, one of which stops; the second is told, and a third comes late. -/
theorem completion_is_seen_late : ∃ s : St, s.kind = .task ∧ s.done = true ∧ s.event = ⟨0, true⟩ ∧ s.count = 0 := by
  obtain ⟨s, hr, hk, hd, hf⟩ := LTS.existsG_from (G := Heard) (f := step) (create .task)
    [.queue, .start, .addRef, .start, .stop, .complete, .start] (P := fun s : St => s.kind = .task ∧ s.done = true ∧ s.freed = false) (by decide +kernel)
  exact ⟨s, hk, hd, (completion_is_seen .task s hr hd hf).1, (completion_is_seen .task s hr hd hf).2.1⟩

/-- **Counterexample.** The request completes with nobody interested, because nobody was
yet or the only waiter has stopped. The next waiter is parked on an event that will not fire
again. -/
theorem completion_is_missed :
    (∃ s, (lts .dns).Reachable s ∧ s.done = true ∧ s.freed = false ∧ s.event = ⟨1, false⟩ ∧ s.count = 1) ∧
    ∃ s, (lts .task).Reachable s ∧ s.done = true ∧ s.freed = false ∧ s.event = ⟨1, false⟩ ∧ s.count = 1 :=
  ⟨LTS.exists_from (f := step) (create .dns) [.start, .stop, .complete, .start] (by decide +kernel),
    LTS.exists_from (f := step) (create .task) [.queue, .complete, .start] (by decide +kernel)⟩

end PhpAsync.L2.Completion
