import PhpAsync.L2Coroutine.Lifecycle

/-!
# Sections under `protect()`

`Async\protect()` sets the flag `PROTECTED` of the coroutine, calls the closure, clears
the flag and throws what was deferred meanwhile. The flag is one bit: an inner call of
`protect()` clears it for the rest of the outer section, and throws in the middle of it.

The coroutine is that of `Lifecycle`; around it stand the calls of `protect()` it is in
(`depth`) and the exception pending in its code. Histories: `asked` are the cancellations
that others have requested since the outermost section was entered, `thrown` those of them
that have been thrown into the coroutine.

**Hypotheses (`Flat`).** `protect()` is not called inside a section; no graceful shutdown
begins inside one (it lifts the protection on purpose); a section is not left by `exit()`.

**Results.**
* `inner_section_unshields`: the counterexamples.
* `protect_shields`: under the hypotheses nothing requested in a section is thrown inside
  it, and the first is thrown once when the section is left.
-/
namespace PhpAsync.L2.Protect

open PhpAsync.Core PhpAsync.L1

variable {V : Type}

/-- `pending` is `EG(exception)` with its chain of previous ones, newest first; `applied`
are the cancellations of `asked` that the waker holds. -/
structure St (V : Type) where
  co : Coroutine.St V
  depth : Nat
  pending : List Err
  asked : List Err
  applied : List Err
  thrown : List Err
  deriving DecidableEq, Repr

/-- `async_rethrow_exception`: the new exception gets the pending one as its previous. An
`exit()` on its way is not replaced.
mirrors exceptions.c:406-435 -/
def rethrow (e : Err) (pending : List Err) : List Err :=
  if pending.head?.any Err.isExit then pending else e :: pending

/-- mirrors async.c:237-253 -/
def enter (s : St V) : St V :=
  { s with
    co := { s.co with guarded := true }
    depth := s.depth + 1
    asked := if s.depth = 0 then [] else s.asked
    applied := if s.depth = 0 then [] else s.applied
    thrown := if s.depth = 0 then [] else s.thrown }

/-- The closure has returned, or thrown what is pending.
mirrors async.c:272-293 -/
def leave (s : St V) : St V :=
  let t := { s with co := { s.co with guarded := false }, depth := s.depth - 1 }
  match s.co.deferred with
  | none => t
  | some e =>
    { t with
      co := { t.co with cancelled := true, deferred := none }
      pending := rethrow e s.pending
      thrown := s.thrown ++ [e] }

/-- The cancellation a request stands for. -/
def requested (s : St V) (error : Option Err) : Err := error.getD (Coroutine.newCancellation s.co)

/-- Another coroutine requests a cancellation. -/
def request (s : St V) (error : Option Err) (safely : Bool) : St V :=
  let t := { s with co := Coroutine.cancel s.co error safely }
  if s.depth = 0 then t
  else
    { t with
      asked := s.asked ++ [requested s error]
      applied := if s.co.guarded then s.applied else s.applied ++ [requested s error] }

/-- The scheduler returns to the code, which sees the error of the waker.
mirrors scheduler.c:1726-1742 -/
def switchIn (s : St V) (co : Coroutine.St V) : St V :=
  { s with
    co := co
    pending := match s.co.error with | some e => rethrow e s.pending | none => s.pending
    applied := []
    thrown := s.thrown ++ s.applied }

inductive Lbl (V : Type) where
  | enter
  | leave
  | throw (e : Err)
  | catch_
  | request (error : Option Err) (safely : Bool)
  | cancelSelf (error : Option Err)
  | shutdown (cancellation : Err)
  | execute
  | suspend
  | yield
  | resume (error : Option Err)
  | switchIn
  | finish (e : Coroutine.Ending V)
  deriving DecidableEq, Repr

def step (s : St V) : Lbl V → Option (St V)
  | .enter => if s.co.running then some (enter s) else none
  | .leave => if s.co.running ∧ 0 < s.depth then some (leave s) else none
  | .throw e => if s.co.running then some { s with pending := rethrow e s.pending } else none
  | .catch_ => if s.co.running then some { s with pending := [] } else none
  | .request error safely => if s.co.running then none else some (request s error safely)
  | .cancelSelf error =>
    if s.co.running then some { s with co := Coroutine.cancel s.co error false } else none
  | .shutdown cancellation =>
    (Coroutine.step s.co (.shutdown cancellation)).map fun co => { s with co := co }
  | .execute => (Coroutine.step s.co .execute).map fun co => { s with co := co }
  | .suspend => (Coroutine.step s.co .suspend).map fun co => { s with co := co }
  | .yield => (Coroutine.step s.co .yield).map fun co => { s with co := co }
  | .resume error => (Coroutine.step s.co (.resume error)).map fun co => { s with co := co }
  | .switchIn => (Coroutine.step s.co .switchIn).map (switchIn s)
  | .finish e =>
    if s.depth = 0 then (Coroutine.step s.co (.finish e)).map fun co => { s with co := co } else none

def spawn : St V := ⟨Coroutine.spawn, 0, [], [], [], []⟩

def Init (s : St V) : Prop := s = spawn

def lts (V : Type) : LTS (St V) (Lbl V) := LTS.ofFn Init step

/-- See the module doc. -/
def Flat (s : St V) : Lbl V → Prop
  | .enter | .shutdown _ => s.depth = 0
  | .leave => s.pending.head?.any Err.isExit = false
  | _ => True

instance (s : St V) : ∀ l, Decidable (Flat s l)
  | .enter | .shutdown _ => inferInstanceAs (Decidable (s.depth = 0))
  | .leave => inferInstanceAs (Decidable (_ = false))
  | .throw _ | .catch_ | .request _ _ | .cancelSelf _ | .execute | .suspend | .yield | .resume _
  | .switchIn | .finish _ => inferInstanceAs (Decidable True)

/-! ## The coroutine inside and outside of a section -/

/-- What the coroutine itself shows of a section: outside of one nothing is deferred,
inside the protection stands and the first request is deferred. -/
structure Shielded (s : St V) : Prop where
  flat : s.depth ≤ 1
  guarded : s.co.guarded = decide (0 < s.depth)
  deferred : s.co.deferred = if s.depth = 0 then none else s.asked.head?
  applied : s.applied = []
  thrown : s.thrown = if s.depth = 0 then s.asked.head?.toList else []
  begun : 0 < s.depth → s.co.started = true ∧ s.co.finished = false
  awake : s.co.running = true → s.co.started = true ∧ s.co.finished = false ∧ s.co.status = .result

variable {a co : Coroutine.St V} {s : St V}

/-- Steps of the coroutine that touch neither the protection nor what is deferred. -/
theorem Shielded.keeps (h : Shielded s) (hg : co.guarded = s.co.guarded) (hd : co.deferred = s.co.deferred)
    (hb : 0 < s.depth → co.started = true ∧ co.finished = false)
    (hw : co.running = true → co.started = true ∧ co.finished = false ∧ co.status = .result) :
    Shielded { s with co := co } where
  flat := h.flat
  guarded := hg.trans h.guarded
  deferred := hd.trans h.deferred
  applied := h.applied
  thrown := h.thrown
  begun := hb
  awake := hw

/-- What a cancellation keeps of the coroutine. -/
structure Keeps (a b : Coroutine.St V) : Prop where
  guarded : b.guarded = a.guarded
  started : b.started = a.started
  finished : b.finished = a.finished
  running : b.running = a.running
  status : a.running = true → b.status = a.status

theorem Shielded.cancelled (h : Shielded s) (hk : Keeps s.co co) (hd : co.deferred = s.co.deferred) :
    Shielded { s with co := co } := by
  refine h.keeps hk.guarded hd (fun hlt => ?_) (fun hr => ?_)
  · rw [hk.started, hk.finished]
    exact h.begun hlt
  · rw [hk.running] at hr
    rw [hk.started, hk.finished, hk.status hr]
    exact h.awake hr

/-- A request that finds no protection is applied. -/
theorem keeps_cancelSuspended (hr : a.running = false) (e : Err) (safely : Bool) :
    Keeps a (Coroutine.cancelSuspended a e safely) ∧
      (Coroutine.cancelSuspended a e safely).deferred = a.deferred := by
  have hrun : a.running ≠ true := hr ▸ Bool.false_ne_true
  unfold Coroutine.cancelSuspended Coroutine.enqueue
  split
  · exact ⟨⟨rfl, rfl, rfl, rfl, fun h => absurd h hrun⟩, rfl⟩
  split
  · exact ⟨⟨rfl, rfl, rfl, rfl, fun _ => rfl⟩, rfl⟩
  split
  · split <;> exact ⟨⟨rfl, rfl, rfl, rfl, fun h => absurd h hrun⟩, rfl⟩
  · split <;> exact ⟨⟨rfl, rfl, rfl, rfl, fun h => absurd h hrun⟩, rfl⟩

/-- One that finds it is deferred, if it is the first. -/
theorem keeps_cancelOther (hr : a.running = false) (e : Err) (safely : Bool) :
    Keeps a (Coroutine.cancelOther a e safely) ∧ (Coroutine.cancelOther a e safely).deferred =
      if a.guarded then a.deferred.or (some e) else a.deferred := by
  cases hg : a.guarded with
  | true =>
    have heq : Coroutine.cancelOther a e safely = { a with deferred := a.deferred.or (some e) } := if_pos hg
    rw [heq]
    exact ⟨⟨rfl, rfl, rfl, rfl, fun _ => rfl⟩, rfl⟩
  | false =>
    have heq : Coroutine.cancelOther a e safely = Coroutine.cancelSuspended a e safely :=
      if_neg (hg ▸ Bool.false_ne_true)
    rw [heq]
    exact keeps_cancelSuspended hr e safely

theorem keeps_request (hr : s.co.running = false) (hf : s.co.finished = false) (error : Option Err) (safely : Bool) :
    Keeps s.co (Coroutine.cancel s.co error safely) ∧ (Coroutine.cancel s.co error safely).deferred =
      if s.co.guarded then s.co.deferred.or (some (requested s error)) else s.co.deferred := by
  have hrun : ¬ (s.co.running && decide (s.co.status ≠ .waiting)) = true := by
    rw [hr]
    exact Bool.false_ne_true
  unfold Coroutine.cancel
  rw [if_neg (hf ▸ Bool.false_ne_true), if_neg hrun]
  cases error with
  | some e => exact keeps_cancelOther hr e safely
  | none =>
    obtain ⟨hk, hd⟩ := keeps_cancelOther (a := { s.co with fresh := s.co.fresh + 1 }) hr
      (Coroutine.newCancellation s.co) safely
    exact ⟨⟨hk.guarded, hk.started, hk.finished, hk.running, hk.status⟩, hd⟩

/-- A coroutine that runs only stores a cancellation of its own. -/
theorem keeps_cancelSelf (hr : a.running = true) (hw : a.status = .result) (error : Option Err) :
    Keeps a (Coroutine.cancel a error false) ∧ (Coroutine.cancel a error false).deferred = a.deferred := by
  have hrun : (a.running && decide (a.status ≠ .waiting)) = true := by
    rw [hr, hw]
    rfl
  unfold Coroutine.cancel
  rw [if_pos hrun]
  split
  · exact ⟨⟨rfl, rfl, rfl, rfl, fun _ => rfl⟩, rfl⟩
  · split <;> exact ⟨⟨rfl, rfl, rfl, rfl, fun _ => rfl⟩, rfl⟩

theorem Shielded.enter (h : Shielded s) (hr : s.co.running = true) (hd : s.depth = 0) : Shielded (enter s) where
  flat := by
    show s.depth + 1 ≤ 1
    omega
  guarded := (decide_eq_true (Nat.succ_pos _)).symm
  deferred := by grind [h.deferred, enter]
  applied := if_pos hd
  thrown := by grind [enter]
  begun _ := ⟨(h.awake hr).1, (h.awake hr).2.1⟩
  awake := h.awake

/-- The section is left: the first request is thrown, over whatever is pending. -/
theorem leave_eq (h : Shielded s) (hd : 0 < s.depth) (hx : s.pending.head?.any Err.isExit = false) :
    (leave s).depth = 0 ∧ (leave s).asked = s.asked ∧ (leave s).thrown = s.asked.head?.toList ∧
    (leave s).pending = s.asked.head?.toList ++ s.pending ∧ (leave s).co.deferred = none := by
  have hflat := h.flat
  have hdef := h.deferred
  have hthrown := h.thrown
  rw [if_neg (Nat.pos_iff_ne_zero.1 hd)] at hdef hthrown
  unfold leave
  cases hask : s.asked.head? with
  | none => grind
  | some e =>
    rw [hask] at hdef
    rw [hdef]
    refine ⟨show s.depth - 1 = 0 by omega, rfl, ?_, ?_, rfl⟩
    · show s.thrown ++ [e] = [e]
      rw [hthrown]
      rfl
    · show rethrow e s.pending = [e] ++ s.pending
      unfold rethrow
      rw [hx]
      rfl

theorem Shielded.leave (h : Shielded s) (hr : s.co.running = true) (hd : 0 < s.depth)
    (hx : s.pending.head?.any Err.isExit = false) : Shielded (leave s) := by
  obtain ⟨hdepth, hasked, hthrown, -, hdef⟩ := leave_eq h hd hx
  have hco : (Protect.leave s).co.guarded = false ∧ (Protect.leave s).applied = s.applied ∧
      (Protect.leave s).co.started = s.co.started ∧ (Protect.leave s).co.finished = s.co.finished ∧
      (Protect.leave s).co.status = s.co.status := by
    unfold Protect.leave
    split <;> exact ⟨rfl, rfl, rfl, rfl, rfl⟩
  exact {
    flat := by omega
    guarded := by rw [hco.1, hdepth]; rfl
    deferred := by rw [hdef, hdepth]; rfl
    applied := hco.2.1.trans h.applied
    thrown := by rw [hthrown, hdepth, hasked]; rfl
    begun := fun hlt => absurd hlt (by omega)
    awake := fun _ => by
      rw [hco.2.2.1, hco.2.2.2.1, hco.2.2.2.2]
      exact h.awake hr }

theorem Shielded.request (h : Shielded s) (hr : s.co.running = false) (error : Option Err) (safely : Bool) :
    Shielded (request s error safely) := by
  unfold Protect.request
  split
  · rename_i hd
    cases hf : s.co.finished with
    | true =>
      have : Coroutine.cancel s.co error safely = s.co := if_pos hf
      rw [this]
      exact h
    | false =>
      obtain ⟨hk, hdef⟩ := keeps_request hr hf error safely
      have hg : s.co.guarded = false := by
        rw [h.guarded, hd]
        rfl
      rw [hg, if_neg Bool.false_ne_true] at hdef
      exact h.cancelled hk hdef
  · rename_i hd
    obtain ⟨hk, hdef⟩ := keeps_request hr (h.begun (Nat.pos_of_ne_zero hd)).2 error safely
    have hg : s.co.guarded = true := by
      rw [h.guarded]
      exact decide_eq_true (Nat.pos_of_ne_zero hd)
    have hold := h.deferred
    rw [if_neg hd] at hold
    rw [hg, if_pos rfl, hold] at hdef
    rw [if_pos hg]
    exact {
      flat := h.flat
      guarded := hk.guarded.trans h.guarded
      deferred := by grind
      applied := h.applied
      thrown := by
        rw [if_neg hd, h.thrown, if_neg hd]
      begun := fun hlt => by grind [hk.started, hk.finished, h.begun]
      awake := fun hrun => by grind [hk.running]}

/-! ## Steps and runs -/

section Steps

variable {s t : St V}

theorem Shielded.idle (h : Shielded s) (hs : s.co.started = false) : s.depth = 0 ∧ s.co.running = false := by
  refine ⟨Nat.eq_zero_of_not_pos fun hlt => ?_, Bool.eq_false_iff.2 fun hr => ?_⟩
  · rw [(h.begun hlt).1] at hs
    cases hs
  · rw [(h.awake hr).1] at hs
    cases hs

theorem Shielded.outside (h : Shielded s) (hd : s.depth = 0) (hg : co.guarded = s.co.guarded)
    (hdef : co.deferred = s.co.deferred)
    (hw : co.running = true → co.started = true ∧ co.finished = false ∧ co.status = .result) :
    Shielded { s with co := co } :=
  h.keeps hg hdef (fun hlt => absurd hlt (by omega)) hw

theorem Shielded.execute (h : Shielded s) (hst : Coroutine.step s.co .execute = some co) :
    Shielded { s with co := co } := by
  have hst : Coroutine.execute s.co = some co := hst
  unfold Coroutine.execute at hst
  split at hst
  · cases hst
  rename_i hnew
  obtain ⟨hs, hf⟩ := Bool.or_eq_false_iff.1 (Bool.eq_false_iff.2 hnew)
  obtain ⟨hd, -⟩ := h.idle hs
  split at hst
  · split at hst
    · cases hst
      exact h.outside hd rfl rfl fun hr => by cases hr
    · cases hst
  · split at hst <;> cases hst
    · exact h.outside hd rfl rfl fun hr => by cases hr
    · exact h.outside hd rfl rfl fun _ => ⟨rfl, hf, rfl⟩
  · cases hst

theorem Shielded.resume {error : Option Err} (h : Shielded s) (hst : Coroutine.step s.co (.resume error) = some co) :
    Shielded { s with co := co } := by
  obtain ⟨hstat, ⟨⟩⟩ := Option.ite_none_right_eq_some.1 hst
  have hidle : s.co.running ≠ true := fun hr => by
    rw [(h.awake hr).2.2] at hstat
    rcases hstat with hc | hc <;> cases hc
  unfold Coroutine.resume Coroutine.enqueue
  split <;> exact h.keeps rfl rfl h.begun fun hr => absurd hr hidle

theorem Shielded.shutdown {cancellation : Err} (h : Shielded s) (hd : s.depth = 0)
    (hst : Coroutine.step s.co (.shutdown cancellation) = some co) : Shielded { s with co := co } := by
  have hg : s.co.guarded = false := by
    rw [h.guarded, hd]
    rfl
  obtain ⟨hf, ⟨⟩⟩ := Option.ite_none_left_eq_some.1 hst
  unfold Coroutine.shutdown
  split
  · grind [h.outside, h.idle]
  · have hsame : ({ s.co with guarded := false } : Coroutine.St V) = s.co := by
      rw [← hg]
    rw [hsame]
    cases hr : s.co.running with
    | true =>
      obtain ⟨hk, hdef⟩ := keeps_cancelSelf hr (h.awake hr).2.2 (some cancellation)
      exact h.cancelled hk hdef
    | false =>
      obtain ⟨hk, hdef⟩ := keeps_request hr (Bool.eq_false_iff.2 hf) (some cancellation) false
      rw [hg, if_neg Bool.false_ne_true] at hdef
      exact h.cancelled hk hdef

theorem Shielded.switchIn (h : Shielded s) (hst : Coroutine.step s.co .switchIn = some co) :
    Shielded (switchIn s co) := by
  obtain ⟨⟨hs, hf, -⟩, ⟨⟩⟩ := Option.ite_none_right_eq_some.1 hst
  exact {
    flat := h.flat
    guarded := h.guarded
    deferred := h.deferred
    applied := rfl
    thrown := by grind [h.applied, h.thrown, switchIn]
    begun := h.begun
    awake := fun _ => ⟨hs, hf, rfl⟩ }

theorem Shielded.step {l : Lbl V} (h : Shielded s) (hG : Flat s l) (hst : step s l = some t) :
    Shielded t := by
  cases l with
  | enter =>
    obtain ⟨hr, ⟨⟩⟩ := Option.ite_none_right_eq_some.1 hst
    exact h.enter hr hG
  | leave =>
    obtain ⟨⟨hr, hd⟩, ⟨⟩⟩ := Option.ite_none_right_eq_some.1 hst
    exact h.leave hr hd hG
  | throw e =>
    obtain ⟨-, ⟨⟩⟩ := Option.ite_none_right_eq_some.1 hst
    exact ⟨h.flat, h.guarded, h.deferred, h.applied, h.thrown, h.begun, h.awake⟩
  | catch_ =>
    obtain ⟨-, ⟨⟩⟩ := Option.ite_none_right_eq_some.1 hst
    exact ⟨h.flat, h.guarded, h.deferred, h.applied, h.thrown, h.begun, h.awake⟩
  | request error safely =>
    obtain ⟨hr, ⟨⟩⟩ := Option.ite_none_left_eq_some.1 hst
    exact h.request (Bool.eq_false_iff.2 hr) error safely
  | cancelSelf error =>
    obtain ⟨hr, ⟨⟩⟩ := Option.ite_none_right_eq_some.1 hst
    obtain ⟨hk, hdef⟩ := keeps_cancelSelf hr (h.awake hr).2.2 error
    exact h.cancelled hk hdef
  | shutdown cancellation =>
    obtain ⟨co, hco, ⟨⟩⟩ := Option.map_eq_some_iff.1 hst
    exact h.shutdown hG hco
  | execute =>
    obtain ⟨co, hco, ⟨⟩⟩ := Option.map_eq_some_iff.1 hst
    exact h.execute hco
  | suspend =>
    obtain ⟨co, hco, ⟨⟩⟩ := Option.map_eq_some_iff.1 hst
    obtain ⟨-, ⟨⟩⟩ := Option.ite_none_right_eq_some.1 hco
    exact h.keeps rfl rfl h.begun fun hr => by cases hr
  | yield =>
    obtain ⟨co, hco, ⟨⟩⟩ := Option.map_eq_some_iff.1 hst
    obtain ⟨-, ⟨⟩⟩ := Option.ite_none_right_eq_some.1 hco
    exact h.keeps rfl rfl h.begun fun hr => by cases hr
  | resume error =>
    obtain ⟨co, hco, ⟨⟩⟩ := Option.map_eq_some_iff.1 hst
    exact h.resume hco
  | switchIn =>
    obtain ⟨co, hco, ⟨⟩⟩ := Option.map_eq_some_iff.1 hst
    exact h.switchIn hco
  | finish e =>
    obtain ⟨hd, hfin⟩ := Option.ite_none_right_eq_some.1 hst
    obtain ⟨co, hco, ⟨⟩⟩ := Option.map_eq_some_iff.1 hfin
    obtain ⟨-, ⟨⟩⟩ := Option.ite_none_right_eq_some.1 hco
    cases e <;> exact h.outside hd rfl rfl fun hr => by cases hr

end Steps

theorem shielded_inductive : ((lts V).restrict Flat).Inductive Shielded where
  init s hs := by
    rw [show s = spawn from hs]
    exact ⟨Nat.zero_le 1, rfl, rfl, rfl, rfl, fun h => absurd h (Nat.lt_irrefl 0), fun h => by cases h⟩
  step s l t h hst := h.step hst.1 hst.2

/-- **`protect()` shields the section.** In every flat run: inside a section none of the
cancellations requested in it has been thrown; behind it the first of them has been thrown
once, and the others never; and when the section is left, it is thrown over whatever is
pending, which becomes its previous exception. -/
theorem protect_shields (s : St V) (hr : ((lts V).restrict Flat).Reachable s) :
    (0 < s.depth → s.thrown = []) ∧ (s.depth = 0 → s.thrown = s.asked.head?.toList) ∧
    ∀ t, Flat s .leave → step s .leave = some t →
      t.depth = 0 ∧ t.asked = s.asked ∧ t.pending = s.asked.head?.toList ++ s.pending := by
  have h := shielded_inductive.reachable s hr
  refine ⟨fun hd => ?_, fun hd => ?_, fun t hG hst => ?_⟩
  · rw [h.thrown, if_neg (Nat.pos_iff_ne_zero.1 hd)]
  · rw [h.thrown, if_pos hd]
  · obtain ⟨⟨-, hd⟩, ⟨⟩⟩ := Option.ite_none_right_eq_some.1 hst
    obtain ⟨h₁, h₂, -, h₄, -⟩ := leave_eq h hd hG
    exact ⟨h₁, h₂, h₄⟩

/-- Two cancellations are requested in a section that is left by an exception. -/
theorem protect_shields_once :
    ∃ s t : St Nat, s.asked = [⟨.given 1, .cancellation⟩, ⟨.given 2, .cancellation⟩] ∧ 0 < s.depth ∧
      s.thrown = [] ∧ step s .leave = some t ∧
      t.pending = [⟨.given 1, .cancellation⟩, ⟨.given 3, .other⟩] := by
  obtain ⟨s, hr, hasked, hd, hpend, hG, hsome⟩ := LTS.existsG_from (G := Flat) (f := step) (spawn : St Nat)
    [.execute, .enter, .suspend, .request (some ⟨.given 1, .cancellation⟩) false,
      .request (some ⟨.given 2, .cancellation⟩) true, .resume none, .switchIn, .throw ⟨.given 3, .other⟩]
    (P := fun s => s.asked = [⟨.given 1, .cancellation⟩, ⟨.given 2, .cancellation⟩] ∧ 0 < s.depth ∧
      s.pending = [⟨.given 3, .other⟩] ∧ Flat s .leave ∧ (step s .leave).isSome = true) (by decide +kernel)
  obtain ⟨t, hst⟩ := Option.isSome_iff_exists.1 hsome
  obtain ⟨hin, -, hleave⟩ := protect_shields s hr
  refine ⟨s, t, hasked, hd, hin hd, hst, ?_⟩
  rw [(hleave t hG hst).2.2, hasked, hpend]
  rfl

/-- **Counterexamples.** Behind an inner section, a cancellation requested in the outer one
is thrown into it; and one that was deferred is thrown when the inner section is left. -/
theorem inner_section_unshields :
    (∃ s : St Nat, (lts Nat).Reachable s ∧ s.depth = 1 ∧ s.thrown = [⟨.given 1, .cancellation⟩] ∧
      s.pending = [⟨.given 1, .cancellation⟩]) ∧
    ∃ s t : St Nat, (lts Nat).Reachable s ∧ s.depth = 2 ∧ s.thrown = [] ∧ step s .leave = some t ∧
      t.depth = 1 ∧ t.thrown = [⟨.given 1, .cancellation⟩] := by
  constructor
  · exact LTS.exists_from (f := step) (spawn : St Nat)
      [.execute, .enter, .enter, .leave, .suspend, .request (some ⟨.given 1, .cancellation⟩) false, .switchIn] (by decide +kernel)
  · obtain ⟨s, t, hr, hst, ⟨hd, hth⟩, ht⟩ := LTS.exists_step_of_exec (show Init (spawn : St Nat) from rfl) (f := step)
      [.execute, .enter, .enter, .suspend, .request (some ⟨.given 1, .cancellation⟩) false, .resume none,
        .switchIn] .leave
      (P := fun s t => (s.depth = 2 ∧ s.thrown = []) ∧ t.depth = 1 ∧
        t.thrown = [⟨.given 1, .cancellation⟩]) (by decide +kernel)
    exact ⟨s, t, hr, hd, hth, hst, ht⟩

end PhpAsync.L2.Protect
