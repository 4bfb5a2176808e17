import PhpAsync.Core.LTS

/-!
# Receive requests of a one-shot handle

Model of libuv_reactor.c:4650-4682, 4978-5051, 6340-6413, 6878-6940, 7773-7855, 7945-7977: the
stream reads and datagram receives of one handle. The handle has one slot for a request
(`active`), which a new request takes; libuv runs the reader (`reading`) and calls back with
what has arrived.

A request is `cancelled` when the event is stopped under it or the handle is closed; the code
does not keep this. libuv calls back while it reads only, and does not start a reader that
runs already (UV_EALREADY).

* `receive_is_answered`: nothing is lost as long as a request is submitted only to a handle
  with an empty slot, and libuv has something to say when it calls back about a datagram.
* `receive_is_orphaned`: what happens otherwise.
-/
namespace PhpAsync.L2.Receive

open PhpAsync.Core

inductive Kind where
  | stream
  | udp
  deriving DecidableEq, Repr

inductive Status where
  | pending
  | completed
  | cancelled
  | disposed
  deriving DecidableEq, Repr

/-- `reqs`: the requests given out, numbered in order of submission. -/
structure St where
  kind : Kind
  closed : Bool
  eof : Bool
  active : Option Nat
  reading : Bool
  loopRef : Nat
  reqs : List Status
  deriving DecidableEq, Repr

def start (kind : Kind) : St := ⟨kind, false, false, none, false, 0, []⟩

/-- What libuv says: `bytes_read` or `nread`. -/
inductive Nread where
  | bytes
  /-- nothing available, or an empty datagram -/
  | zero
  | eof
  | error
  deriving DecidableEq, Repr

def complete (s : St) (st : Status) : Option Nat → St
  | some r => { s with reqs := s.reqs.set r st }
  | none => s

/-- The reader stops and the slot is cleared. -/
def detach (s : St) : St := { s with reading := false, active := none }

/-- `ok`: libuv can start the reader. A refused request is freed at once.
mirrors src/libuv_reactor.c:6340-6413, 7945-7977 -/
def submit (s : St) (ok : Bool) : St :=
  if s.closed then s
  else if s.kind = .stream ∧ s.eof = true then { s with reqs := s.reqs ++ [.completed] }
  else if ok && !s.reading then
    { s with active := some s.reqs.length, reading := true, reqs := s.reqs ++ [.pending] }
  else { s with active := none }

/-- mirrors src/libuv_reactor.c:4978-5051 -/
def pipeReadCb (s : St) (n : Nread) : St :=
  match n with
  | .zero => s
  | .eof => { complete (detach s) .completed s.active with eof := s.eof || s.active.isSome }
  | _ => complete (detach s) .completed s.active

/-- mirrors src/libuv_reactor.c:7773-7808 -/
def udpRecvCb (s : St) (n : Nread) : St :=
  match s.active with
  | none => s
  | some r => if n = .zero then detach s else complete (detach s) .completed (some r)

def readCb (s : St) (n : Nread) : St :=
  match s.kind with
  | .stream => pipeReadCb s n
  | .udp => udpRecvCb s n

/-- mirrors src/libuv_reactor.c:4831-4843, 7810-7826 -/
def dispose (s : St) (r : Nat) : St :=
  complete (if s.active = some r then detach s else s) .disposed (some r)

/-- The request in the slot is cancelled, whoever stops the event.
mirrors src/libuv_reactor.c:4659-4683 -/
def eventStop (s : St) : St :=
  if s.loopRef = 0 then s
  else if 1 < s.loopRef then { s with loopRef := s.loopRef - 1 }
  else
    match s.kind, s.active with
    | .stream, some r => { complete (detach s) .cancelled (some r) with loopRef := 0 }
    | _, _ => { s with loopRef := 0 }

/-- Every pending request is cancelled, whoever closes the handle. `subscribed`: somebody is
waiting on the event, so that the request in the slot is completed.
mirrors src/libuv_reactor.c:6878-6963 -/
def close (s : St) (subscribed : Bool) : St :=
  if s.closed then s
  else
    { s with
      closed := true
      reading := false
      eof := s.eof || subscribed
      active := if subscribed then none else s.active
      reqs := s.reqs.map fun st => if st = .pending then .cancelled else st }

inductive Lbl where
  | submit (ok : Bool)
  | readCb (n : Nread)
  | dispose (r : Nat)
  | eventStart
  | eventStop
  | close (subscribed : Bool)
  deriving DecidableEq, Repr

def step (s : St) : Lbl → Option St
  | .submit ok => some (submit s ok)
  | .readCb n => if s.reading then some (readCb s n) else none
  | .dispose r => if r < s.reqs.length then some (dispose s r) else none
  | .eventStart => some { s with loopRef := s.loopRef + 1 }
  | .eventStop => some (eventStop s)
  | .close subscribed => some (close s subscribed)

def lts (kind : Kind) : LTS St Lbl := LTS.ofFn (· = Receive.start kind) step

/-! ## No request is lost -/

/-- A request comes when the slot is empty, and a datagram callback brings a datagram or an error. -/
def OneAtATime (s : St) : Lbl → Prop
  | .submit _ => s.active = none
  | .readCb n => s.kind = .udp → n ≠ .zero
  | _ => True

instance (s : St) : (l : Lbl) → Decidable (OneAtATime s l)
  | .submit _ => inferInstanceAs (Decidable (_ = _))
  | .readCb _ => inferInstanceAs (Decidable (_ → _))
  | .dispose _ | .eventStart | .eventStop | .close _ => isTrue trivial

/-- A pending request is in the slot and being read for; without one there is no reader. -/
structure Attended (s : St) : Prop where
  slot : ∀ r : Nat, s.reqs[r]? = some .pending → s.active = some r ∧ s.reading = true
  idle : s.active = none → s.reading = false

variable {s t : St} {r : Nat} {st : Status} {l : Lbl}

theorem Attended.detach (h : Attended s) (st : Status) (hst : st ≠ .pending) :
    Attended (complete (detach s) st s.active) := by
  refine ⟨fun r hr => ?_, fun _ => ?_⟩
  · cases ha : s.active with
    | none =>
      rw [ha] at hr
      have := (h.slot r hr).1
      rw [ha] at this
      cases this
    | some r' =>
      rw [ha] at hr
      change (s.reqs.set r' st)[r]? = _ at hr
      rw [List.getElem?_set] at hr
      split at hr
      · split at hr <;> simp_all
      · rename_i hne
        have := (h.slot r hr).1
        rw [ha] at this
        exact (hne (Option.some.inj this)).elim
  · cases s.active <;> rfl

theorem Attended.settle (h : Attended s) (hst : st ≠ .pending) : Attended { s with reqs := s.reqs.set r st } := by
  refine ⟨fun r' hr => h.slot r' ?_, h.idle⟩
  rw [List.getElem?_set] at hr
  split at hr
  · split at hr <;> simp_all
  · exact hr

theorem Attended.of_eq (h : Attended s) (h1 : t.reqs = s.reqs) (h2 : t.active = s.active)
    (h3 : t.reading = s.reading) : Attended t := by
  obtain ⟨hs, hi⟩ := h
  rw [← h1, ← h2, ← h3] at hs
  rw [← h2, ← h3] at hi
  exact ⟨hs, hi⟩

theorem Attended.submit (h : Attended s) (ha : s.active = none) (ok : Bool) : Attended (submit s ok) := by
  have hno : ∀ r : Nat, s.reqs[r]? ≠ some .pending := fun r hr => by
    have := (h.slot r hr).1
    rw [ha] at this
    cases this
  unfold Receive.submit
  split
  · exact h
  split
  · exact ⟨fun r hr => by grind, h.idle⟩
  split
  · exact ⟨fun r hr => ⟨by grind, rfl⟩, nofun⟩
  · exact h.of_eq rfl ha.symm rfl

theorem Attended.readCb (h : Attended s) {n : Nread} (hn : s.kind = .udp → n ≠ .zero) : Attended (readCb s n) := by
  have hd := h.detach .completed nofun
  unfold Receive.readCb
  cases hk : s.kind with
  | stream =>
    cases n with
    | zero => exact h
    | eof => exact hd.of_eq rfl rfl rfl
    | bytes => exact hd
    | error => exact hd
  | udp =>
    dsimp only [udpRecvCb]
    split
    · exact h
    · rename_i r ha
      rw [if_neg (hn hk), ← ha]
      exact hd

theorem Attended.dispose (h : Attended s) (r : Nat) : Attended (dispose s r) := by
  unfold Receive.dispose
  split
  · rename_i ha
    rw [← ha]
    exact h.detach _ nofun
  · exact h.settle nofun

theorem Attended.eventStop (h : Attended s) : Attended (eventStop s) := by
  unfold Receive.eventStop
  split
  · exact h
  split
  · exact h.of_eq rfl rfl rfl
  split
  · rename_i r _ ha
    rw [← ha]
    exact (h.detach .cancelled nofun).of_eq rfl rfl rfl
  · exact h.of_eq rfl rfl rfl

theorem Attended.close (h : Attended s) (b : Bool) : Attended (close s b) := by
  unfold Receive.close
  split
  · exact h
  · refine ⟨fun r hr => ?_, fun _ => rfl⟩
    rw [List.getElem?_map] at hr
    obtain ⟨st, -, hst⟩ := Option.map_eq_some_iff.1 hr
    split at hst
    · cases hst
    · exact (‹¬_› hst).elim

theorem Attended.step (h : Attended s) (hG : OneAtATime s l) (ht : step s l = some t) : Attended t := by
  cases l with
  | submit ok =>
    cases ht
    exact h.submit hG ok
  | readCb n =>
    obtain ⟨-, rfl⟩ := Option.ite_some_none_eq_some.1 ht
    exact h.readCb hG
  | dispose r =>
    obtain ⟨-, rfl⟩ := Option.ite_some_none_eq_some.1 ht
    exact h.dispose r
  | eventStart =>
    cases ht
    exact h.of_eq rfl rfl rfl
  | eventStop =>
    cases ht
    exact h.eventStop
  | close b =>
    cases ht
    exact h.close b

theorem attended_inductive (kind : Kind) : ((lts kind).restrict OneAtATime).Inductive Attended where
  init s hs := by
    have hs' : s = Receive.start kind := hs
    subst hs'
    exact ⟨nofun, fun _ => rfl⟩
  step s l t h hst := h.step hst.1 hst.2

/-- **No request is orphaned.** A request that was neither completed nor cancelled nor
disposed is the active one, and libuv is reading for it. -/
theorem receive_is_answered (kind : Kind) (s : St) (hr : ((lts kind).restrict OneAtATime).Reachable s) (r : Nat)
    (hp : s.reqs[r]? = some .pending) : s.active = some r ∧ s.reading = true :=
  ((attended_inductive kind).reachable s hr).slot r hp

theorem receive_is_answered_udp : ∃ s, ((lts .udp).restrict OneAtATime).Reachable s ∧
    s.reqs = [.completed, .pending] ∧ s.active = some 1 ∧ s.reading = true := by
  obtain ⟨s, hr, hq⟩ := LTS.existsG_from (G := OneAtATime) (f := step) (P := fun s => s.reqs = [.completed, .pending])
    (Receive.start .udp) [.submit true, .readCb .bytes, .submit true] (by decide +kernel)
  exact ⟨s, hr, hq, receive_is_answered .udp s hr 1 (by rw [hq]; rfl)⟩

/-- A datagram callback with nothing to deliver takes the request out of the slot and stops
the reader. A second read of a handle clears the slot, as libuv refuses to start the reader
twice: the first read is pending, nobody will complete it. -/
theorem receive_is_orphaned :
    (∃ s, (lts .udp).Reachable s ∧ s.reqs = [.pending] ∧ s.active = none ∧ s.reading = false) ∧
      ∃ s, (lts .stream).Reachable s ∧ s.reqs = [.pending] ∧ s.active = none := by
  refine ⟨?_, ?_⟩
  · exact LTS.exists_from (f := step) (Receive.start .udp) [.submit true, .readCb .zero] (by decide +kernel)
  · exact LTS.exists_from (f := step) (Receive.start .stream) [.submit true, .submit true] (by decide +kernel)

end PhpAsync.L2.Receive
