import PhpAsync.L2Await.Model

/-!
# What a callback does

`Called` says what one call of `async_waiting_callback` does to the call in progress:
what it leaves alone (`Kept`), what it counts, and what error it leaves; `Notified` adds
when it wakes a caller that sleeps, `Replayed` what it does during the call.
-/
namespace PhpAsync.L2.Await

open PhpAsync.Core PhpAsync.L1

/-- The caller sleeps and nothing has put it into the run queue. -/
def Stuck (s : St) : Prop := s.phase = .suspended false ∨ s.phase = .draining false

/-! ## Errors of the waker -/

variable {c : Cfg} {old : Option Err}

theorem mergeError_eq_none {error : Option Err} (h : mergeError old error = none) : old = none ∧ error = none := by
  cases error with
  | none => exact ⟨by simpa using h, rfl⟩
  | some e => grind [mergeError_some]

theorem applyCancellation_ne_none (old : Option Err) (e : Err) : applyCancellation old e ≠ none := by
  unfold applyCancellation
  split
  · split <;> simp
  · simp

theorem mergeError_mem {error : Option Err} {e : Err} (h : mergeError old error = some e) :
    old = some e ∨ error = some e := by
  cases error with
  | none => exact .inl (by simpa using h)
  | some e' => grind [mergeError_some]

theorem applyCancellation_mem {e e' : Err} (h : applyCancellation old e = some e') : old = some e' ∨ e = e' := by
  unfold applyCancellation at h
  split at h
  · split at h
    · exact .inl h
    · exact .inr (Option.some.inj h)
  · exact .inr (Option.some.inj h)

/-! ## What the callbacks leave alone -/

structure Kept (s t : St) : Prop where
  pending : t.pending = s.pending
  env : t.env = s.env
  others : t.others = s.others
  waitingCount : t.waitingCount = s.waitingCount

theorem Kept.trans {s t u : St} (h : Kept s t) (h' : Kept t u) : Kept s u where
  pending := h'.pending.trans h.pending
  env := h'.env.trans h.env
  others := h'.others.trans h.others
  waitingCount := h'.waitingCount.trans h.waitingCount

/-! ## Recording -/

def Result.error : Result → List Err
  | .failed e => [e]
  | .ok _ => []

section Record

variable (c : Cfg) (s : St) (a : Nat) (key : IterKey) (r : Result)

theorem record_kept : Kept s (record c s a key r) := by
  cases r <;> exact ⟨rfl, rfl, rfl, rfl⟩

@[simp] theorem record_phase : (record c s a key r).phase = s.phase := by cases r <;> rfl

@[simp] theorem record_error : (record c s a key r).error = s.error := by cases r <;> rfl

@[simp] theorem record_waits : (record c s a key r).waits = s.waits := by cases r <;> rfl

@[simp] theorem record_tokenArmed : (record c s a key r).tokenArmed = s.tokenArmed := by cases r <;> rfl

@[simp] theorem record_crashed : (record c s a key r).crashed = s.crashed := by cases r <;> rfl

@[simp] theorem record_resolvedCount : (record c s a key r).resolvedCount = s.resolvedCount + 1 := by cases r <;> rfl

@[simp] theorem record_failures : (record c s a key r).failures = s.failures ++ r.error := by
  cases r <;> simp [record, Result.error]

end Record

/-! ## The end of the wait -/

theorem finished_of_count (c : Cfg) (s : St) (hc : c.ignoreErrors = false) (h0 : 0 < s.waitingCount)
    (h : s.waitingCount ≤ s.resolvedCount) : finished c s = true := by
  unfold finished
  rw [hc]
  simp [h0, h]

/-! ## Waking the caller -/

def Phase.wake : Phase → Phase
  | .suspended _ => .suspended true
  | .draining _ => .draining true
  | p => p

/-- What a resumption does, besides waking the caller: it counts nothing. -/
structure Resumed (s : St) (error : Option Err) (t : St) : Prop where
  kept : Kept s t
  crashed : t.crashed = s.crashed
  resolved : t.resolvedCount = s.resolvedCount
  failures : t.failures = s.failures
  error : t.error = mergeError s.error error
  waits : t.waits = s.waits ∨ t.waits = []

theorem resumeSuspended_resumed (s : St) (deferred : Bool) (error : Option Err) :
    Resumed s error (resumeSuspended s deferred error) := by
  have hkept : ∀ p : Phase, Kept s { s with phase := p, error := mergeError s.error error } := fun _ =>
    ⟨rfl, rfl, rfl, rfl⟩
  unfold resumeSuspended
  split
  · cases deferred
    · exact ⟨{ hkept s.phase with }, rfl, rfl, rfl, rfl, .inr rfl⟩
    · exact ⟨hkept _, rfl, rfl, rfl, rfl, .inl rfl⟩
  · cases deferred
    · exact ⟨{ hkept s.phase with }, rfl, rfl, rfl, rfl, .inr rfl⟩
    · exact ⟨hkept _, rfl, rfl, rfl, rfl, .inl rfl⟩
  · exact ⟨hkept s.phase, rfl, rfl, rfl, rfl, .inl rfl⟩

theorem resumeInline_resumed (s : St) (error : Option Err) : Resumed s error (resumeInline s error) := by
  unfold resumeInline
  split
  · exact ⟨⟨rfl, rfl, rfl, rfl⟩, rfl, rfl, rfl, rfl, .inr rfl⟩
  · exact ⟨⟨rfl, rfl, rfl, rfl⟩, rfl, rfl, rfl, rfl, .inl rfl⟩

theorem resumeSuspended_phase (s : St) (deferred : Bool) (error : Option Err) :
    (resumeSuspended s deferred error).phase = s.phase.wake := by
  unfold resumeSuspended
  split
  · rename_i h; rw [h]; cases deferred <;> rfl
  · rename_i h; rw [h]; cases deferred <;> rfl
  · rename_i h1 h2
    cases hp : s.phase with
    | suspended q => cases q <;> simp_all [Phase.wake]
    | draining q => cases q <;> simp_all [Phase.wake]
    | ready => rfl
    | ended r => rfl

/-! ## The callback -/

/-- What a call of `async_waiting_callback` with the result `r` does. -/
structure Called (c : Cfg) (s : St) (r : Result) (t : St) : Prop where
  kept : Kept s t
  crashed : t.crashed = s.crashed
  resolved : t.resolvedCount = s.resolvedCount + 1
  failures : t.failures = s.failures ++ r.error
  waits : t.waits = s.waits ∨ t.waits = []
  /-- only a failure that counts leaves an error -/
  error : t.error = s.error ∧ (r.isFailed = true → c.ignoreErrors = true) ∨
    ∃ e, r = .failed e ∧ c.ignoreErrors = false ∧ t.error = mergeError s.error (some e)

/-- From a state whose list of callbacks no longer has the one called. -/
structure Notified (c : Cfg) (s : St) (r : Result) (t : St) : Prop extends Called c s r t where
  phase : t.phase = s.phase ∨ t.phase = s.phase.wake
  /-- a failure that counts wakes the caller -/
  fails : c.ignoreErrors = false → r.isFailed = true → t.phase = s.phase.wake

/-- During the loop over an array. -/
structure Replayed (c : Cfg) (s : St) (r : Result) (t : St) : Prop extends Called c s r t where
  token : t.tokenArmed = true → s.tokenArmed = true

section Callback

variable {c : Cfg} {s t : St} {m : Mode} {a : Nat} {key : IterKey} {r : Result} {error : Option Err}

theorem Called.fails (hc : Called c s r t) (hi : c.ignoreErrors = false) (hr : r.isFailed = true) : t.error ≠ none := by
  rcases hc.error with ⟨-, hig⟩ | ⟨e, -, -, he⟩
  · rw [hig hr] at hi
    cases hi
  · rw [he]
    exact fun hn => absurd (mergeError_eq_none hn).2 nofun

/-- The callback either only counts or resumes the caller. -/
theorem waitingCallback_bound (c : Cfg) (s : St) (a : Nat) (key : IterKey) (r : Result) (hm : m.bound = true) :
    (wakes c (record c s a key r) r = none ∧ waitingCallback c m s a key r = record c s a key r) ∨
    (∃ error, wakes c (record c s a key r) r = some error ∧
      waitingCallback c m s a key r = resume m (record c s a key r) error) := by
  unfold waitingCallback
  cases h : wakes c (record c s a key r) r with
  | none => exact .inl ⟨rfl, rfl⟩
  | some error => exact .inr ⟨error, rfl, by rw [hm]; rfl⟩

theorem wakes_some (h : wakes c s r = some error) :
    (∃ e, r = .failed e ∧ c.ignoreErrors = false ∧ error = some e) ∨
    (error = none ∧ (r.isFailed = true → c.ignoreErrors = true)) := by
  cases r with
  | failed e => grind [wakes]
  | ok v => grind [wakes, Result.isFailed]

theorem wakes_none (h : wakes c s r = none) : r.isFailed = true → c.ignoreErrors = true := by
  cases r with
  | failed e => grind [wakes]
  | ok v => exact nofun

theorem record_called (c : Cfg) (s : St) (a : Nat) (key : IterKey) (r : Result)
    (hi : r.isFailed = true → c.ignoreErrors = true) : Called c s r (record c s a key r) where
  kept := record_kept c s a key r
  crashed := by simp
  resolved := by simp
  failures := by simp
  waits := .inl (by simp)
  error := .inl ⟨by simp, hi⟩

theorem Resumed.called (h : Resumed (record c s a key r) error t)
    (hw : wakes c (record c s a key r) r = some error) : Called c s r t where
  kept := (record_kept c s a key r).trans h.kept
  crashed := by rw [h.crashed, record_crashed]
  resolved := by rw [h.resolved, record_resolvedCount]
  failures := by rw [h.failures, record_failures]
  waits := by rw [← record_waits c s a key r]; exact h.waits
  error := by
    rw [h.error, record_error]
    rcases wakes_some hw with ⟨e, hr, hi, rfl⟩ | ⟨rfl, hi⟩
    · exact .inr ⟨e, hr, hi, rfl⟩
    · exact .inl ⟨mergeError_none _, hi⟩

theorem waitingCallback_notified (c : Cfg) (deferred : Bool) (s : St) (a : Nat) (key : IterKey) (r : Result) :
    Notified c s r (waitingCallback c (.event deferred) s a key r) := by
  rcases waitingCallback_bound c s a key r (m := .event deferred) rfl with ⟨hw, ht⟩ | ⟨error, hw, ht⟩
  · -- the callback only counts
    rw [ht]
    exact
      { toCalled := record_called c s a key r (wakes_none hw)
        phase := .inl (by simp)
        fails := fun hi hf => by rw [wakes_none hw hf] at hi; cases hi }
  · -- the callback wakes the caller
    have hph := resumeSuspended_phase (record c s a key r) deferred error
    rw [record_phase] at hph
    rw [ht]
    exact
      { toCalled := (resumeSuspended_resumed _ deferred error).called hw
        phase := .inr hph
        fails := fun _ _ => hph }

theorem waitingCallback_replayed (c : Cfg) (s : St) (a : Nat) (key : IterKey) (r : Result) :
    Replayed c s r (waitingCallback c .inline s a key r) := by
  rcases waitingCallback_bound c s a key r (m := .inline) rfl with ⟨hw, ht⟩ | ⟨error, hw, ht⟩
  · rw [ht]
    exact ⟨record_called c s a key r (wakes_none hw), fun h => by simpa using h⟩
  · rw [ht]
    refine ⟨(resumeInline_resumed _ error).called hw, fun h => ?_⟩
    unfold resume resumeInline at h
    dsimp only at h
    split at h
    · cases h
    · simpa using h

/-- Without a coroutine a callback counts; a failure that would resume the caller is a
null dereference. -/
theorem waitingCallback_unbound (c : Cfg) (s : St) (a : Nat) (key : IterKey) (r : Result) :
    (waitingCallback c .unbound s a key r = record c s a key r ∧
      (r.isFailed = true → c.ignoreErrors = true)) ∨
    (waitingCallback c .unbound s a key r = { record c s a key r with crashed := true } ∧
      r.isFailed = true) := by
  unfold waitingCallback
  cases hw : wakes c (record c s a key r) r with
  | none => exact .inl ⟨rfl, wakes_none hw⟩
  | some error =>
    cases r with
    | failed e => exact .inr ⟨rfl, rfl⟩
    | ok v => exact .inl ⟨rfl, nofun⟩

end Callback

/-! ## The places of the elements -/

theorem prepare_eq (c : Cfg) (s : St) (k : Key) :
    ∃ results, prepare c s k = { s with results := results } := by
  unfold prepare
  split
  · exact ⟨_, rfl⟩
  · split
    · exact ⟨_, rfl⟩
    · exact ⟨s.results, rfl⟩

theorem prepareIter_eq (c : Cfg) (s : St) (key : IterKey) :
    ∃ results, prepareIter c s key = { s with results := results } := by
  cases key with
  | key k => exact prepare_eq c s k
  | null => exact ⟨s.results, rfl⟩
  | other => exact ⟨s.results, rfl⟩

theorem awaitablesOf_append (xs ys : List (Key × Item)) :
    awaitablesOf (xs ++ ys) = awaitablesOf xs ++ awaitablesOf ys := by
  induction xs with
  | nil => rfl
  | cons p rest ih =>
    obtain ⟨k, item⟩ := p
    cases item with
    | null => exact ih
    | invalid => exact ih
    | awaitable a =>
      show a :: awaitablesOf (rest ++ ys) = a :: awaitablesOf rest ++ awaitablesOf ys
      rw [ih]
      rfl

/-- Before the call, with what has settled by then. -/
def before (env : Nat → Option Result) : St := { create with env := env }

/-- The state in which the loop over an array begins. -/
def started (c : Cfg) (env : Nat → Option Result) (items : List (Key × Item)) : St :=
  { create with
    env := env
    tokenArmed := c.token
    total := items.length
    waitingCount := if 0 < c.count then c.count.toNat else items.length
    seen := awaitablesOf items }

theorem call_array {items : List (Key × Item)} (hi : c.input = .array items) (hne : items ≠ [])
    (env : Nat → Option Result) :
    call c (before env) =
      if (arrayLoop c items (started c env items)).2 then
        suspendOrLeave c (arrayLoop c items (started c env items)).1
      else
        { cleanEvents (arrayLoop c items (started c env items)).1 with
          phase := .ended (some notAwaitable)
          others := (arrayLoop c items (started c env items)).1.others ++ [notAwaitable] } := by
  unfold call
  rw [hi]
  cases items with
  | nil => exact absurd rfl hne
  | cons p rest => rfl

/-- **Rule for the loop over an array.** What its branches keep, as long as the wait
is not over, holds behind it: for the elements it has passed. -/
theorem arrayLoop_keeps {items : List (Key × Item)} {P : List (Key × Item) → St → Prop}
    (hnull : ∀ done k s, (k, .null) ∈ items → P done s → P (done ++ [(k, .null)]) s)
    (hreg : ∀ done k a s results, (k, .awaitable a) ∈ items → P done s → s.env a = none → P (done ++ [(k,
      .awaitable a)]) (register { s with results := results } a (.key k)))
    (hskip : ∀ done k a s results, (k, .awaitable a) ∈ items → P done s → s.env a ≠ none → c.replays a = false →
      P (done ++ [(k, .awaitable a)]) { s with results := results })
    (hrep : ∀ done k a r s t results, (k, .awaitable a) ∈ items → P done s → finished c s = false → s.env a = some r →
      c.replays a = true → Replayed c { s with results := results } r t → P (done ++ [(k, .awaitable a)]) t) (rest : List (Key × Item)) :
    ∀ (done : List (Key × Item)) (s : St), done ++ rest = items → P done s → finished c s = false →
      ∃ done' rest', done' ++ rest' = items ∧ P done' (arrayLoop c rest s).1 ∧
        ((arrayLoop c rest s).2 = true → finished c (arrayLoop c rest s).1 = true ∨ rest' = []) := by
  induction rest with
  | nil => exact fun done s hd h _ => ⟨done, [], hd, h, fun _ => .inr rfl⟩
  | cons p rest ih =>
    intro done s hd h hopen
    obtain ⟨k, item⟩ := p
    have hd' : (done ++ [(k, item)]) ++ rest = items := by
      rw [List.append_assoc]
      exact hd
    have hmem : (k, item) ∈ items := hd ▸ List.mem_append_right _ List.mem_cons_self
    cases item with
    | null => exact ih _ s hd' (hnull done k s hmem h) hopen
    | invalid => exact ⟨done, _, hd, h, nofun⟩
    | awaitable a =>
      obtain ⟨results, hprep⟩ := prepare_eq c s k
      rw [arrayLoop, hprep]
      split
      · rename_i r hr
        dsimp only
        have hnext : P (done ++ [(k, .awaitable a)]) (if c.replays a then
            waitingCallback c .inline { s with results := results } a (.key k) r else { s with results := results }) := by
          split
          · exact hrep done k a r s _ results hmem h hopen hr ‹_› (waitingCallback_replayed ..)
          · exact hskip done k a s results hmem h (by rw [hr]; nofun) (Bool.eq_false_iff.2 ‹_›)
        generalize (if c.replays a = true then _ else _) = t at hnext ⊢
        split
        · exact ⟨_, rest, hd', hnext, fun _ => .inl ‹_›⟩
        · exact ih _ _ hd' hnext (Bool.eq_false_iff.2 ‹_›)
      · exact ih _ _ hd' (hreg done k a s results hmem h ‹_›) hopen

/-! ## Steps -/

/-- The callbacks of an event in a call that does not drain: each that is still registered
is called. -/
theorem notifyOne_cases (c : Cfg) (deferred : Bool) (r : Result) (s : St) (w : Wait)
    (hd : ∀ q, s.phase ≠ .draining q) :
    (w ∉ s.waits ∧ notifyOne c deferred r s w = s) ∨
    (w ∈ s.waits ∧ Notified c { s with waits := s.waits.erase w } r (notifyOne c deferred r s w)) := by
  unfold notifyOne
  by_cases hw : w ∈ s.waits
  · refine .inr ⟨hw, ?_⟩
    rw [if_pos hw]
    split
    · rename_i q hq
      exact absurd hq (hd q)
    · exact waitingCallback_notified c deferred _ w.event w.key r
  · exact .inl ⟨hw, if_neg hw⟩

/-- What a cancellation leaves in the waker. -/
def cancelError (s : St) (e : Err) (token : Bool) : Option Err :=
  if token then mergeError s.error (some e) else applyCancellation s.error e

theorem cancelError_ne_none (s : St) (e : Err) (token : Bool) : cancelError s e token ≠ none := by
  unfold cancelError
  split
  · exact fun hn => absurd (mergeError_eq_none hn).2 nofun
  · exact applyCancellation_ne_none _ _

/-- What a step does. -/
inductive Step (c : Cfg) (s : St) : Lbl → St → Prop where
  | call (hr : s.phase = .ready) : Step c s .call (call c s)
  | settle {a : Nat} {r : Result} {deferred : Bool} (ha : s.env a = none) :
    Step c s (.settle a r deferred) (settle c deferred s a r)
  | yield {key : IterKey} {item : Item} {deferred q : Bool} (hw : s.walk = .walking) (hq : s.phase = .suspended q) :
    Step c s (.yield key item deferred) (iteratorHandler c deferred s key item)
  | walkEnd {deferred q : Bool} (hw : s.walk = .walking) (hq : s.phase = .suspended q) :
    Step c s (.walkEnd deferred) (iteratorDispose c deferred s none)
  | walkStop {error : Option Err} {deferred q : Bool} (hw : s.walk = .walking) (hq : s.phase = .suspended q) :
    Step c s (.walkStop error deferred) (iteratorDispose c deferred s error)
  | cancel {e : Err} {token q : Bool} (hq : s.phase = .suspended q) :
    Step c s (.cancel e token)
      { s with phase := .suspended true, error := cancelError s e token, others := s.others ++ [e] }
  | cancelDrain {e : Err} {token q : Bool} (hq : s.phase = .draining q) :
    Step c s (.cancel e token)
      { s with phase := .draining true, error := cancelError s e token, others := s.others ++ [e] }
  | run (hq : s.phase = .suspended true) :
    Step c s .run (leave c { cleanEvents s with pending := s.error.or s.pending, error := none })
  | runDrain (hq : s.phase = .draining true) :
    Step c s .run { cleanEvents s with phase := .ended s.error, error := none }

theorem walks_iff (s : St) : walks s = true ↔ s.walk = .walking ∧ ∃ q, s.phase = .suspended q := by
  unfold walks
  rw [Bool.and_eq_true, decide_eq_true_iff]
  cases hp : s.phase <;> simp

theorem step_cases {s t : St} {l : Lbl} (h : step c s l = some t) : s.crashed = false ∧ Step c s l t := by
  unfold step at h
  split at h
  · cases h
  rename_i hc
  refine ⟨Bool.eq_false_iff.2 hc, ?_⟩
  cases l with
  | call =>
    obtain ⟨hr, ⟨⟩⟩ := Option.ite_none_right_eq_some.1 h
    exact .call hr
  | settle a r deferred =>
    obtain ⟨ha, ⟨⟩⟩ := Option.ite_none_right_eq_some.1 h
    exact .settle ha
  | yield key item deferred =>
    obtain ⟨hw, ⟨⟩⟩ := Option.ite_none_right_eq_some.1 h
    obtain ⟨hw, q, hq⟩ := (walks_iff s).1 hw
    exact .yield hw hq
  | walkEnd deferred =>
    obtain ⟨hw, ⟨⟩⟩ := Option.ite_none_right_eq_some.1 h
    obtain ⟨hw, q, hq⟩ := (walks_iff s).1 hw
    exact .walkEnd hw hq
  | walkStop error deferred =>
    obtain ⟨hw, ⟨⟩⟩ := Option.ite_none_right_eq_some.1 h
    obtain ⟨hw, q, hq⟩ := (walks_iff s).1 hw
    exact .walkStop hw hq
  | cancel e token =>
    simp only [cancel] at h
    split at h
    · cases h
      exact .cancel ‹_›
    · cases h
      exact .cancelDrain ‹_›
    · cases h
  | run =>
    simp only [run] at h
    split at h
    · cases h
      exact .run ‹_›
    · cases h
      exact .runDrain ‹_›
    · cases h

end PhpAsync.L2.Await
