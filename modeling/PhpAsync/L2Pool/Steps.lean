import PhpAsync.Core.Tally
import PhpAsync.L2Pool.Model

/-!
# `Async\Pool`: what a step does

The 32-bit counters away from their limits, and one lemma `*_cases` for each
function that branches: the conditions of a branch and the state it ends in.
The modules on sizes, reservations and waiters read the steps off these.
-/
namespace PhpAsync.L2.Pool

open PhpAsync.Core PhpAsync.L1

/-! ## Counters -/

theorem u32_lt (n : Int) : u32 n < 4294967296 := by
  unfold u32
  omega

variable {c : Cfg} {n : Nat} {s : St}

theorem u32_of_lt (h : n < 4294967296) : u32 n = n := by
  unfold u32
  omega

theorem inc_eq (h : n + 1 < 4294967296) : inc n = n + 1 := by
  unfold inc u32
  omega

theorem dec_eq (h0 : 0 < n) (h : n < 4294967296) : dec n = n - 1 := by
  unfold dec u32
  omega

/-- No place is open: they are all held or reserved. -/
theorem le_of_unreserved_eq_zero (hc : c.maxSize < 4294967296) (h : unreserved c s = 0) :
    c.maxSize ≤ s.active + s.waiters.reserved := by
  unfold unreserved u32 at h
  omega

/-- A place is open, as long as the subtraction has not wrapped. -/
theorem lt_of_unreserved_pos (hle : s.active + s.waiters.reserved ≤ c.maxSize) (h : 0 < unreserved c s) :
    s.active + s.waiters.reserved < c.maxSize := by
  unfold unreserved u32 at h
  omega

theorem construct_lt {min max interval : Int} {healthcheck : Bool} (h : construct min max interval healthcheck = .ok c) :
    c.minSize < 4294967296 ∧ c.maxSize < 4294967296 := by
  unfold construct at h
  split at h
  · cases h
  split at h
  · cases h
  split at h
  · cases h
  split at h
  · cases h
  cases h
  exact ⟨u32_lt _, u32_lt _⟩

theorem reachable_lt (hr : (lts c).Reachable s) : c.minSize < 4294967296 ∧ c.maxSize < 4294967296 := by
  obtain ⟨s₀, ls, ⟨min, max, interval, healthcheck, outs, hc, -⟩, -⟩ := hr
  exact construct_lt hc

/-- The sizes keep their order when the maximum fits a `uint32_t`. -/
theorem construct_le {min max interval : Int} {healthcheck : Bool} (h : construct min max interval healthcheck = .ok c)
    (hmax : max < 4294967296) : c.minSize ≤ c.maxSize := by
  unfold construct at h
  split at h
  · cases h
  split at h
  · cases h
  split at h
  · cases h
  split at h
  · cases h
  cases h
  show u32 min ≤ u32 max
  unfold u32
  omega

theorem create_init {min max : Nat} (hle : min ≤ max) (h1 : 1 ≤ max) (hlt : max < 4294967296)
    (outs : List Outcome) : Init ⟨min, max, true⟩ (create ⟨min, max, true⟩ outs) := by
  refine ⟨min, max, 1, true, outs, ?_, rfl⟩
  unfold construct
  rw [if_neg (by omega), if_neg (by omega), if_neg (by omega), if_neg (by omega),
    u32_of_lt (by omega), u32_of_lt hlt]
  rfl

theorem prewarm_length : ∀ (n : Nat) (outs : List Outcome), (prewarm n outs).length ≤ n
  | 0, outs => by cases outs <;> exact Nat.le_refl 0
  | n + 1, [] => Nat.zero_le _
  | n + 1, out :: outs => by
    have ih := prewarm_length n outs
    cases out with
    | made r => simp only [prewarm, List.length_cons]; omega
    | threw e => simp only [prewarm, List.length_nil]; omega
    | ok => simp only [prewarm]; omega
    | no => simp only [prewarm]; omega

/-! ## Branches -/

/-- Somebody queued holds no reservation. -/
def St.starving (s : St) : Prop := s.waiters.Starving fun _ => false

instance (s : St) : Decidable s.starving := by unfold St.starving; infer_instance

theorem wakeWaiter_cases (s : St) :
    (¬ s.starving ∧ wakeWaiter s = s) ∨
    ∃ w, s.waiters.first (fun _ => false) = some w ∧
      wakeWaiter s = resume { s with waiters := s.waiters.grant w } w none := by
  unfold wakeWaiter
  split
  · rename_i hn
    exact .inl ⟨WaitQueue.first_none.1 hn, rfl⟩
  · rename_i w hw
    exact .inr ⟨w, hw, rfl⟩

/-- Waking touches the waiters only. -/
theorem wakeWaiter_eq (s : St) : ∃ q k, wakeWaiter s = { s with waiters := q, wakers := k } := by
  rcases wakeWaiter_cases s with ⟨-, h⟩ | ⟨w, -, h⟩
  · exact ⟨s.waiters, s.wakers, h⟩
  · exact ⟨_, _, h⟩

@[simp] theorem wakeWaiter_frames (s : St) : (wakeWaiter s).frames = s.frames := by
  obtain ⟨q, k, h⟩ := wakeWaiter_eq s
  rw [h]

@[simp] theorem wakeWaiter_active (s : St) : (wakeWaiter s).active = s.active := by
  obtain ⟨q, k, h⟩ := wakeWaiter_eq s
  rw [h]

theorem wakeWaiter_reserved (s : St) :
    (wakeWaiter s).waiters.reserved =
      if s.starving then s.waiters.reserved + 1 else s.waiters.reserved := by
  rcases wakeWaiter_cases s with ⟨hn, h⟩ | ⟨w, hw, h⟩
  · rw [h, if_neg hn]
  · rw [h, if_pos ⟨w, WaitQueue.first_mem hw⟩]
    rfl

/-- The event moves no resource. -/
def Ev.quiet : Ev → Bool
  | .created _ | .destroyed _ | .acquired .. => false
  | _ => true

theorem giveUp_cases (s : St) (call : Nat) (mode : Mode) (has : Bool) (e : Exn) :
    (has = true ∧ ∃ ev, ev.quiet = true ∧ giveUp s call mode has e = emit (wakeWaiter s) ev) ∨
    ((has = true → mode = .tryAcquire) ∧
      ∃ ev, ev.quiet = true ∧ giveUp s call mode has e = emit s ev) := by
  unfold giveUp
  cases mode with
  | tryAcquire => exact .inr ⟨fun _ => rfl, _, rfl, rfl⟩
  | acquire t =>
    cases has with
    | true => exact .inl ⟨rfl, _, rfl, rfl⟩
    | false => exact .inr ⟨fun h => (by cases h), _, rfl, rfl⟩

/-- An attempt may not be made, takes an idle resource, creates one, or finds no
place. -/
theorem attempt_cases (c : Cfg) (s : St) (call : Nat) (mode : Mode) (has : Bool) :
    ((s.closed = true ∨ s.circuit = .inactive) ∧
      ∃ e, attempt c s call mode has = giveUp s call mode has e) ∨
    (s.closed = false ∧ s.circuit ≠ .inactive ∧
      ((∃ r rest, s.idle = r :: rest ∧ (has = true ∨ 0 < unreserved c s) ∧
          attempt c s call mode has =
            enter { s with idle := rest, active := inc s.active } (.beforeAcquire call mode r)) ∨
        (s.idle = [] ∧ (has = true ∨ 0 < unreserved c s) ∧ u32 s.total < c.maxSize ∧
          attempt c s call mode has =
            enter { s with active := inc s.active } (.factory call mode)) ∨
        ((has = false ∧ unreserved c s = 0 ∨ s.idle = [] ∧ c.maxSize ≤ u32 s.total) ∧
          attempt c s call mode has = noPlace s call mode))) := by
  unfold attempt
  split
  · rename_i hc
    exact .inl ⟨.inl hc, _, rfl⟩
  rename_i hc
  split
  · rename_i hi
    exact .inl ⟨.inr hi, _, rfl⟩
  rename_i hi
  refine .inr ⟨by simpa using hc, hi, ?_⟩
  dsimp only
  have hmay : (has || decide (0 < unreserved c s)) = true ↔ has = true ∨ 0 < unreserved c s := by
    simp
  split
  · rename_i r rest hidle hm
    exact .inl ⟨r, rest, hidle, hmay.1 hm, rfl⟩
  · rename_i hno
    split
    · rename_i hcreate
      have hidle : s.idle = [] := by
        cases hl : s.idle with
        | nil => rfl
        | cons r rest => exact (hno r rest hl hcreate.2).elim
      exact .inr (.inl ⟨hidle, hmay.1 hcreate.2, hcreate.1, rfl⟩)
    · rename_i hcreate
      refine .inr (.inr ⟨?_, rfl⟩)
      cases hm : (has || decide (0 < unreserved c s)) with
      | false =>
        simp only [Bool.or_eq_false_iff, decide_eq_false_iff_not, Nat.not_lt, Nat.le_zero] at hm
        exact .inl hm
      | true =>
        refine .inr ⟨?_, ?_⟩
        · cases hl : s.idle with
          | nil => rfl
          | cons r rest => exact (hno r rest hl hm).elim
        · rw [hm] at hcreate
          simpa using hcreate

/-- A woken waiter leaves the queue. It throws, and hands on what was reserved for
it while the pool is open, or it makes its attempt. -/
theorem runWaiter_cases (c : Cfg) (s : St) (w : Nat) (x : Wait) :
    ∃ t, (∃ l, (l = s.log ∨ l = s.log ++ [.consumedTwice]) ∧
        t = { s with waiters := s.waiters.leave w, log := l }) ∧
      ((∃ e, (s.wakers w).error = some e ∧
          ((s.waiters.isReserved w = true ∧ s.closed = false ∧
              runWaiter c s w x = emit (wakeWaiter t) (.threw x.call e)) ∨
            ((s.waiters.isReserved w = false ∨ s.closed = true) ∧
              runWaiter c s w x = emit t (.threw x.call e)))) ∨
        ((s.wakers w).error = none ∧
          runWaiter c s w x =
            attempt c t x.call (.acquire x.timeoutMs) (s.waiters.isReserved w))) := by
  have hlog : ∃ l, (l = s.log ∨ l = s.log ++ [.consumedTwice]) ∧
      (if s.waiters.isReserved w && decide (s.waiters.reserved = 0) then
        emit s .consumedTwice else s) = { s with log := l } := by
    split
    · exact ⟨_, .inr rfl, rfl⟩
    · exact ⟨_, .inl rfl, rfl⟩
  obtain ⟨l, hquiet, hl⟩ := hlog
  refine ⟨{ s with waiters := s.waiters.leave w, log := l }, ⟨l, hquiet, rfl⟩, ?_⟩
  unfold runWaiter
  dsimp only
  rw [hl]
  cases he : (s.wakers w).error with
  | none => exact .inr ⟨rfl, by simp⟩
  | some e => grind

/-- With no idle resource, what is there is active. -/
theorem total_of_idle_nil (hidle : s.idle = []) (hlt : s.active < 4294967296) : u32 s.total = s.active := by
  have htotal : s.total = s.active := by unfold St.total; rw [hidle]; exact Nat.zero_add _
  rw [htotal]
  exact u32_of_lt hlt

theorem tickLoop_cases (s : St) (left : Nat) :
    tickLoop s left = wakeWaiter s ∨
    ∃ r rest n, s.idle = r :: rest ∧
      tickLoop s left =
        enter { s with idle := rest, active := inc s.active } (.healthcheck n r) := by
  unfold tickLoop
  split
  · rename_i n r rest hidle
    exact .inr ⟨r, rest, n, hidle, rfl⟩
  · exact .inl rfl

theorem drainIdle_cases (s : St) (call : Nat) (e : Option Exn) :
    (s.idle = [] ∧ drainIdle s call e = emit s (.returned call e)) ∨
    ∃ r rest, s.idle = r :: rest ∧
      drainIdle s call e = destroy { s with idle := rest } r (.closing call e) := by
  unfold drainIdle
  split
  · rename_i r rest hidle
    exact .inr ⟨r, rest, hidle, rfl⟩
  · rename_i hidle
    exact .inl ⟨hidle, rfl⟩

/-- Everybody waiting is taken out of the queue and woken. -/
theorem wakeAll_eq (e : Exn) : ∀ (l : List Nat) (s : St), ∃ q k, q.reserved = s.waiters.reserved ∧
    l.foldl (fun s w => resume { s with waiters := s.waiters.remove w } w (some e)) s =
      { s with waiters := q, wakers := k }
  | [], s => ⟨s.waiters, s.wakers, rfl, rfl⟩
  | w :: l, s => by
    rw [List.foldl_cons]
    obtain ⟨q, k, hq, h⟩ :=
      wakeAll_eq e l (resume { s with waiters := s.waiters.remove w } w (some e))
    exact ⟨q, k, hq, h⟩

theorem wakeAllWithException_eq (s : St) (e : Exn) : ∃ q k, q.reserved = s.waiters.reserved ∧
    wakeAllWithException s e = { s with waiters := q, wakers := k } :=
  wakeAll_eq e s.waiters.queue.reverse s

theorem checkIn_cases {t : St} {r : Resource} (h : checkIn s r = some t) :
    s.active ≠ 0 ∧
      ((r.handle = none ∧ t = s) ∨
        ∃ i, r.handle = some i ∧ i ∈ s.checkedOut ∧
          t = { s with checkedOut := s.checkedOut.erase i }) := by
  unfold checkIn at h
  split at h
  · cases h
  rename_i ha
  refine ⟨ha, ?_⟩
  split at h
  · grind
  · rename_i hi
    cases h
    exact .inl ⟨hi, rfl⟩

theorem checkOut_eq (s : St) (r : Resource) : ∃ l, checkOut s r = { s with checkedOut := l } := by
  unfold checkOut
  split
  · split
    · exact ⟨s.checkedOut, rfl⟩
    · exact ⟨_, rfl⟩
  · exact ⟨s.checkedOut, rfl⟩

/-! ## Steps -/

/-- The call pushes an idle resource later, and nothing holds a place for it. -/
def Frame.owed : Frame → Nat
  | .reportSuccess .. | .replace .. => 1
  | _ => 0

/-- The call holds one of `active_count`. -/
def Frame.counted : Frame → Nat
  | .beforeAcquire .. | .factory .. | .beforeRelease .. | .healthcheck .. => 1
  | _ => 0

/-- The call has given up a place and wakes a waiter, or takes a place, at its end. -/
def Frame.credit : Frame → Nat
  | .rejected .. | .reportFailure .. | .reportSuccess .. | .discard .. => 1
  | .unhealthy .. | .replace .. => 1
  | _ => 0

/-- The resource a call holds while its hook runs. A destructor's is destroyed. -/
def Frame.resource? : Frame → Option Resource
  | .beforeAcquire _ _ r | .beforeRelease _ r | .reportFailure _ r | .reportSuccess _ r
  | .healthcheck _ r => some r
  | _ => none

def Frame.isTick : Frame → Bool
  | .healthcheck .. | .unhealthy .. | .checkedLate | .replace .. => true
  | _ => false

/-- The destructor of a call of `close()`. -/
def Frame.isClosing : Frame → Bool
  | .closing .. => true
  | _ => false

namespace Lbl

def isCall : Lbl → Bool
  | .acquire _ | .tryAcquire | .release _ | .close => true
  | _ => false

def isTick : Lbl → Bool
  | .tick => true
  | .ret f _ => f.isTick
  | _ => false

def isClosing : Lbl → Bool
  | .close => true
  | .ret f _ => f.isClosing
  | _ => false

end Lbl

/-- The step makes an attempt to acquire, unless the pool is closed or its circuit
open: a call, a waiter that runs without an exception, a retry. -/
def Attempts (s : St) : Lbl → Prop
  | .acquire _ | .tryAcquire => True
  | .run w => (s.wakers w).error = none
  | .ret (.rejected _ _ e) out => pending e out = none
  | _ => False

/-- Where the step starts that the pool takes in `s₀`: in `Start s₀ l a b k x s` the call
owes `a` pushes without a place, holds `b` of `active_count`, has `k` places to announce
or to take, and has `x` in its hands. -/
inductive Start (s₀ : St) : Lbl → Nat → Nat → Nat → Option Resource → St → Prop
  | call {l : Lbl} (hl : l.isCall = true) (hr : ∀ r, l = .release r → checkIn s₀ r = none) :
      Start s₀ l 0 0 0 none (newCall s₀)
  | taken {r : Resource} {t : St} (ht : checkIn s₀ r = some t) : Start s₀ (.release r) 0 1 0 (some r) (newCall t)
  | close : Start s₀ .close 0 0 0 none
      (wakeAllWithException { newCall s₀ with closed := true } (.pool "Pool is closed"))
  | circuit (k : Circuit) : Start s₀ (.setCircuit k) 0 0 0 none { s₀ with circuit := k }
  | tick (ho : s₀.closed = false) : Start s₀ .tick 0 0 1 none s₀
  | run {w : Nat} {x : Wait} (hx : parkedOn s₀ w = some x) {log : List Ev}
      (hlog : log = s₀.log ∨ log = s₀.log ++ [.consumedTwice]) :
      Start s₀ (.run w) 0 0 (if s₀.waiters.isReserved w then 1 else 0) none
        { s₀ with waiters := s₀.waiters.leave w, log := log }
  | woken {l : Lbl} (w : Nat) (f : Waker → Waker) (hl : l = .cancel w ∨ l = .timeout w)
      (hf : ∀ k, (f k).queued = true) :
      Start s₀ l 0 0 0 none { s₀ with wakers := fun i => if i = w then f (s₀.wakers i) else s₀.wakers i }
  | ret {f : Frame} {out : Outcome} (hf : f ∈ s₀.frames) :
      Start s₀ (.ret f out) f.owed f.counted f.credit f.resource? { s₀ with frames := s₀.frames.erase f }

/-- What the call does up to its next hook, its suspension or its end. -/
inductive Mid (c : Cfg) (s₀ : St) (l : Lbl) : Nat → Nat → Nat → Option Resource → St → Prop
  | start {a b k : Nat} {x : Option Resource} {s : St} (hs : Start s₀ l a b k x s) : Mid c s₀ l a b k x s
  | dec {a k : Nat} {x : Option Resource} {s : St} (hm : Mid c s₀ l a 1 k x s) :
      Mid c s₀ l (a + 1) 0 (k + 1) x { s with active := dec s.active }
  | push {a k : Nat} {r : Resource} {s : St} (hm : Mid c s₀ l (a + 1) 0 k (some r) s)
      (ho : s.closed = false ∨ ∃ left, l = .ret (.replace left) (.made r)) :
      Mid c s₀ l a 0 k none { s with idle := s.idle ++ [r] }
  | pop {a k : Nat} {r : Resource} {rest : List Resource} {s : St} (hm : Mid c s₀ l a 0 k none s)
      (hk : k ≤ 1) (hidle : s.idle = r :: rest) (hmay : 0 < k ∨ 0 < unreserved c s) :
      Mid c s₀ l a 1 0 (some r) { s with idle := rest, active := inc s.active }
  | drain {r : Resource} {rest : List Resource} {s : St} (hm : Mid c s₀ l 0 0 0 none s)
      (hl : l.isClosing = true) (hidle : s.idle = r :: rest) :
      Mid c s₀ l 0 0 0 (some r) { s with idle := rest }
  | create {k : Nat} {s : St} (hs : Start s₀ l 0 0 k none s) (hk : k ≤ 1) (ha : Attempts s₀ l)
      (ho : s.closed = false) (hi : s.circuit ≠ .inactive) (hidle : s.idle = [])
      (hlt : u32 s.total < c.maxSize) (hmay : 0 < k ∨ 0 < unreserved c s) :
      Mid c s₀ l 0 1 0 none { s with active := inc s.active }
  | refill {left : Nat} {out : Outcome} {s : St} (hl : l = .ret (.unhealthy left) out)
      (hs : Start s₀ l 0 0 1 none s) (hlt : u32 s.total < c.minSize) : Mid c s₀ l 1 0 1 none s
  | made {a b k : Nat} {s : St} (hm : Mid c s₀ l a b k none s) (r : Resource) :
      Mid c s₀ l a b k (some r) (emit s (.created r))
  | destroyed {a b k : Nat} {r : Resource} {s : St} (hm : Mid c s₀ l a b k (some r) s) :
      Mid c s₀ l a b k none (emit s (.destroyed r))
  | drop {a a' b k k' : Nat} {x : Option Resource} {s : St} (hm : Mid c s₀ l a b k x s) (ha : a' ≤ a)
      (hk : k' ≤ k) (hcl : k' = k ∨ s.closed = true) : Mid c s₀ l a' b k' x s
  | giveUp {call : Nat} {mode : Mode} {e : Option Exn} {out : Outcome} {s : St}
      (hl : l = .ret (.rejected call mode e) out) (hs : Start s₀ l 0 0 1 none s)
      (hp : pending e out = none) (hi : s.circuit = .inactive) : Mid c s₀ l 0 0 0 none s

/-- What the step ends with. -/
inductive Done (c : Cfg) (s₀ : St) (l : Lbl) : St → Prop
  | same {s : St} (hs : Start s₀ l 0 0 0 none s) : Done c s₀ l s
  | say {s : St} {e : Ev} (hm : Mid c s₀ l 0 0 0 none s) (he : e.quiet = true) : Done c s₀ l (emit s e)
  | wake {s : St} {e : Ev} (hm : Mid c s₀ l 0 0 1 none s) (he : e.quiet = true) :
      Done c s₀ l (emit (wakeWaiter s) e)
  | tick {a k : Nat} {s : St} (hm : Mid c s₀ l a 0 k none s) (hl : l.isTick = true) (hk : k ≤ 1) :
      Done c s₀ l (wakeWaiter s)
  | enter {f : Frame} {s : St} (hm : Mid c s₀ l f.owed f.counted f.credit f.resource? s)
      (hf : (f.isTick, f.isClosing) = (l.isTick, l.isClosing)) : Done c s₀ l (enter s f)
  | handOut {call : Nat} {r : Resource} {s : St} (hm : Mid c s₀ l 0 1 0 (some r) s) (hl : l.isTick = false) :
      Done c s₀ l (emit (checkOut s r) (.acquired call r))
  | noPlace {k : Nat} {s : St} (hm : Mid c s₀ l 0 0 k none s)
      (hno : unreserved c s = 0 ∨ s.idle = [] ∧ c.maxSize ≤ u32 s.total) (call : Nat) (mode : Mode) :
      Done c s₀ l (noPlace s call mode)

section Step

variable {s₀ : St} {l : Lbl} {k : Nat}

theorem Done.attempt (hs : Start s₀ l 0 0 k none s) (hk1 : k ≤ 1) (ha : Attempts s₀ l)
    (hl : (l.isTick, l.isClosing) = (false, false)) (call : Nat) (mode : Mode) {has : Bool} (hk : has = true → k = 1)
    (hgive : s.closed = true ∨ s.circuit = .inactive → (has = true → mode = .tryAcquire) →
      Mid c s₀ l 0 0 0 none s) : Done c s₀ l (attempt c s call mode has) := by
  have hmay : has = true ∨ 0 < unreserved c s → 0 < k ∨ 0 < unreserved c s :=
    Or.imp_left fun h => by rw [hk h]; exact Nat.one_pos
  rcases attempt_cases c s call mode has with ⟨hno, e, heq⟩ |
    ⟨ho, hi, ⟨r, rest, hidle, hm, heq⟩ | ⟨hidle, hm, hlt, heq⟩ | ⟨hno, heq⟩⟩ <;> rw [heq]
  · rcases giveUp_cases s call mode has e with ⟨h, ev, hev, heq⟩ | ⟨h, ev, hev, heq⟩ <;> rw [heq]
    · exact .wake (.start (hk h ▸ hs)) hev
    · exact .say (hgive hno h) hev
  · exact .enter (f := .beforeAcquire call mode r) (.pop (.start hs) hk1 hidle (hmay hm)) hl.symm
  · exact .enter (f := .factory call mode) (.create hs hk1 ha ho hi hidle hlt (hmay hm)) hl.symm
  · exact .noPlace (.start hs) (hno.imp_left And.right) call mode

theorem Done.tickLoop (hm : Mid c s₀ l 0 0 1 none s)
    (hl : (l.isTick, l.isClosing) = (true, false)) (left : Nat) : Done c s₀ l (tickLoop s left) := by
  rcases tickLoop_cases s left with heq | ⟨r, rest, n, hidle, heq⟩ <;> rw [heq]
  · exact .tick hm (Prod.mk.inj hl).1 (Nat.le_refl 1)
  · exact .enter (f := .healthcheck n r) (.pop hm (Nat.le_refl 1) hidle (.inl Nat.one_pos)) hl.symm

theorem Done.drainIdle (hm : Mid c s₀ l 0 0 0 none s) (hl : (l.isTick, l.isClosing) = (false, true))
    (call : Nat) (e : Option Exn) : Done c s₀ l (drainIdle s call e) := by
  rcases drainIdle_cases s call e with ⟨-, heq⟩ | ⟨r, rest, hidle, heq⟩ <;> rw [heq]
  · exact .say hm rfl
  · exact .enter (f := .closing call e) (.destroyed (.drain hm (Prod.mk.inj hl).2 hidle)) hl.symm

theorem Mid.forget {a b : Nat} {x : Option Resource} (hm : Mid c s₀ l a b k x s) : Mid c s₀ l 0 b k x s :=
  .drop hm (Nat.zero_le a) (Nat.le_refl k) (.inl rfl)

theorem Mid.late {a b : Nat} {x : Option Resource} (hm : Mid c s₀ l a b k x s) (hcl : s.closed = true) :
    Mid c s₀ l 0 b 0 x s :=
  .drop hm (Nat.zero_le a) (Nat.zero_le k) (.inr hcl)

theorem Done.destroy {r : Resource} {f : Frame} (hm : Mid c s₀ l 0 0 f.credit (some r) s)
    (hf : (f.isTick, f.isClosing) = (l.isTick, l.isClosing))
    (hn : (f.owed, f.counted, f.resource?) = (0, 0, none)) : Done c s₀ l (destroy s r f) := by
  obtain ⟨ho, hc, hr⟩ : f.owed = 0 ∧ f.counted = 0 ∧ f.resource? = none := by simpa using hn
  exact .enter (by rw [ho, hc, hr]; exact .destroyed hm) hf

/-- The hook of `f` returns `out`. -/
theorem Done.ret {f : Frame} {out : Outcome} (hf : f ∈ s.frames) :
    Done c s (.ret f out) (resumeFrame c { s with frames := s.frames.erase f } f out) := by
  have hs : Start s (.ret f out) f.owed f.counted f.credit f.resource? _ := .ret hf
  have hm : Mid c s (.ret f out) _ _ _ _ _ := .start hs
  generalize { s with frames := s.frames.erase f } = t at hs hm
  cases f with
  | beforeAcquire call mode r =>
    unfold resumeFrame afterBeforeAcquire
    dsimp only
    split
    · exact .handOut hm rfl
    · exact .destroy hm.dec.forget rfl rfl
  | rejected call mode e =>
    unfold resumeFrame afterRejected
    dsimp only
    split
    · exact .wake hm rfl
    · rename_i hp
      refine .attempt hs (Nat.le_refl 1) hp rfl call mode nofun fun hno _ => ?_
      rcases hno with hcl | hi
      · exact hm.late hcl
      · exact .giveUp rfl hs hp hi
  | factory call mode =>
    cases out with
    | made r => exact .handOut (hm.made r) rfl
    | threw e => exact .wake hm.dec.forget rfl
    | ok => cases mode <;> exact .wake hm.dec.forget rfl
    | no => cases mode <;> exact .wake hm.dec.forget rfl
  | beforeRelease call r =>
    unfold resumeFrame afterBeforeRelease
    dsimp only
    split
    · exact .enter (f := .reportSuccess call r) hm.dec rfl
    · exact .enter (f := .reportFailure call r) hm.dec.forget rfl
    · exact .destroy hm.dec.forget rfl rfl
  | reportFailure call r => exact .destroy hm rfl rfl
  | reportSuccess call r =>
    unfold resumeFrame afterReportSuccess
    dsimp only
    split
    · rename_i hcl; exact .destroy (hm.late hcl) rfl rfl
    · rename_i ho; exact .wake (.push hm (.inl (by simpa using ho))) rfl
  | discard call e => exact .wake hm rfl
  | released call => exact .say hm rfl
  | closing call e => exact .drainIdle hm rfl call _
  | healthcheck left r =>
    unfold resumeFrame afterHealthcheck
    dsimp only
    split
    · exact .destroy hm.dec.forget rfl rfl
    · exact .destroy hm.dec.forget rfl rfl
    · split
      · rename_i hcl; exact .destroy (hm.dec.late hcl) rfl rfl
      · rename_i ho; exact .tickLoop (.push hm.dec (.inl (by simpa using ho))) rfl left
  | unhealthy left =>
    unfold resumeFrame afterUnhealthy
    dsimp only
    split
    · exact .tick hm rfl (Nat.le_refl 1)
    · split
      · rename_i hlt; exact .enter (f := .replace left) (.refill rfl hs hlt) rfl
      · exact .tickLoop hm rfl left
  | checkedLate => exact .tick hm rfl (Nat.zero_le 1)
  | replace left =>
    cases out with
    | made r => exact .tickLoop (.push (hm.made r) (.inr ⟨left, rfl⟩)) rfl left
    | threw e => exact .tick hm rfl (Nat.le_refl 1)
    | ok => exact .tickLoop hm.forget rfl left
    | no => exact .tickLoop hm.forget rfl left

theorem checkIn_newCall (s : St) (r : Resource) : checkIn (newCall s) r = (checkIn s r).map newCall := by
  unfold checkIn
  by_cases ha : s.active = 0
  · rw [if_pos ha, if_pos (show (newCall s).active = 0 from ha)]
    rfl
  rw [if_neg ha, if_neg (show ¬ (newCall s).active = 0 from ha)]
  cases r.handle with
  | none => rfl
  | some i => grind [newCall]

/-- **Every step** is a start, what the call does, and an end. -/
theorem step_done {s' : St} (h : step c s l = some s') : Done c s l s' := by
  cases l with
  | acquire t =>
    cases h
    have hs : Start s (.acquire t) 0 0 0 none _ := .call rfl nofun
    exact .attempt hs (Nat.zero_le 1) trivial rfl _ _ nofun fun _ _ => .start hs
  | tryAcquire =>
    cases h
    have hs : Start s (.tryAcquire) 0 0 0 none _ := .call rfl nofun
    exact .attempt hs (Nat.zero_le 1) trivial rfl _ _ nofun fun _ _ => .start hs
  | release r =>
    cases h
    unfold release
    rw [checkIn_newCall]
    cases ht : checkIn s r with
    | none => exact .say (.start (.call rfl fun r' hr => by cases hr; exact ht)) rfl
    | some t => exact .enter (f := .beforeRelease s.calls r) (.start (.taken ht)) rfl
  | close =>
    cases h
    unfold close
    split
    · exact .say (.start (.call rfl nofun)) rfl
    · exact .drainIdle (.start .close) rfl _ _
  | setCircuit k => cases h; exact .same (.circuit k)
  | tick =>
    simp only [step] at h
    obtain ⟨hc, ⟨⟩⟩ := Option.ite_none_right_eq_some.1 h
    simp only [Bool.and_eq_true, Bool.not_eq_true'] at hc
    exact .tickLoop (.start (.tick hc.2)) rfl _
  | run w =>
    simp only [step] at h
    obtain ⟨-, h⟩ := Option.ite_none_right_eq_some.1 h
    obtain ⟨x, hx, rfl⟩ := Option.map_eq_some_iff.1 h
    obtain ⟨t, ⟨log, hlog, rfl⟩, hrun⟩ := runWaiter_cases c s w x
    have hs := Start.run hx hlog
    have hk : (if s.waiters.isReserved w then 1 else 0) ≤ 1 := by split <;> omega
    rcases hrun with ⟨e, -, ⟨hres, -, heq⟩ | ⟨hno, heq⟩⟩ | ⟨he, heq⟩ <;> rw [heq]
    · rw [if_pos hres] at hs
      exact .wake (.start hs) rfl
    · rcases hno with hno | hcl
      · rw [if_neg (by rw [hno]; nofun)] at hs
        exact .say (.start hs) rfl
      · exact .say (Mid.late (.start hs) hcl) rfl
    · refine .attempt hs hk he rfl _ _ (fun hres => if_pos hres) fun _ hhas => ?_
      cases hres : s.waiters.isReserved w with
      | true => cases hhas hres
      | false => rw [hres] at hs; exact .start hs
  | cancel w =>
    obtain ⟨x, -, rfl⟩ := Option.map_eq_some_iff.1 h
    exact .same (.woken w Waker.cancel (.inl rfl) fun _ => rfl)
  | timeout w =>
    obtain ⟨x, -, h⟩ := Option.bind_eq_some_iff.1 h
    obtain ⟨-, ⟨⟩⟩ := Option.ite_none_right_eq_some.1 h
    exact .same (.woken w (·.resume (some .timeout)) (.inr rfl) fun _ => rfl)
  | ret f out =>
    simp only [step] at h
    obtain ⟨hf, ⟨⟩⟩ := Option.ite_none_right_eq_some.1 h
    exact .ret hf.1

end Step

/-! ## Runs given by their labels -/

theorem exists_run (min max : Nat) (hle : min ≤ max) (h1 : 1 ≤ max) (hlt : max < 4294967296)
    (outs : List Outcome) (labels : List Lbl) {P : St → Prop} [DecidablePred P]
    (h : (LTS.exec (step ⟨min, max, true⟩) (create ⟨min, max, true⟩ outs) labels).any (P ·) = true) :
    ∃ s, (lts ⟨min, max, true⟩).Reachable s ∧ P s :=
  LTS.exists_of_exec (create_init hle h1 hlt outs) labels h

theorem exists_restricted_run (G : St → Lbl → Prop) [∀ s l, Decidable (G s l)] (min max : Nat)
    (hle : min ≤ max) (h1 : 1 ≤ max) (hlt : max < 4294967296) (outs : List Outcome)
    (labels : List Lbl) {P : St → Prop} [DecidablePred P]
    (h : (LTS.execG G (step ⟨min, max, true⟩) (create ⟨min, max, true⟩ outs) labels).any (P ·) =
      true) : ∃ s, ((lts ⟨min, max, true⟩).restrict G).Reachable s ∧ P s :=
  LTS.exists_of_execG (create_init hle h1 hlt outs) labels h

end PhpAsync.L2.Pool
