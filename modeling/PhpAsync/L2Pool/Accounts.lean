import Mathlib.Data.List.Perm.Subperm
import PhpAsync.L2Pool.Size

/-!
# `Async\Pool`: check-out accounting

`active_count` should be the number of resources that are handed out, or being
acquired, released or checked. It is, except for a release inside `reportSuccess`
or `reportFailure`, which come after the decrement. `pool_check_in` guards it: an object has to be in
`checked_out`, which its first release leaves, but a scalar is taken back whenever
`active_count` is not 0. The decrement comes after `beforeRelease`, so two
releases of one scalar that overlap there are both accepted and the counter wraps
(`double_release_wraps`); a scalar of somebody else takes the place of a resource
that is still out.

`Audit` is the history the accounts are kept against: the values whose release
was accepted. `Owned` keeps the runs in which a scalar is released only while it
is handed out, and the handle of an object that is out belongs to that object
alone; objects may be released any number of times and by anybody.
`checkout_accounting` is what holds over these runs.
-/
namespace PhpAsync.L2.Pool

open PhpAsync.Core PhpAsync.L1

/-! ## The history of a run -/

def Ev.acquired? : Ev → Option Resource
  | .acquired _ r => some r
  | _ => none

/-- What was handed out, once for every successful call. -/
def acquired (log : List Ev) : List Resource := log.filterMap Ev.acquired?

structure Audit where
  /-- the values whose release was accepted -/
  taken : List Resource
  /-- some `close()` has returned -/
  closeReturned : Bool
  deriving DecidableEq, Repr

/-- `close()` number `call` is inside a destructor. -/
def St.inClose (s : St) (call : Nat) : Bool :=
  s.frames.any fun
    | .closing k _ => k == call
    | _ => false

/-- What the step from `s` to `s'` adds to the history. -/
def audit (s : St) (l : Lbl) (s' : St) (a : Audit) : Audit :=
  match l with
  | .release r => if (checkIn s r).isSome then { a with taken := r :: a.taken } else a
  | .close => { a with closeReturned := a.closeReturned || !s'.inClose s.calls }
  | .ret (.closing call _) _ => { a with closeReturned := a.closeReturned || !s'.inClose call }
  | _ => a

def audited (c : Cfg) : LTS (St × Audit) Lbl :=
  LTS.ofFn (fun p => Init c p.1 ∧ p.2 = ⟨[], false⟩) (LTS.recorded (step c) audit)

/-- `r` was handed out more often than it was taken back. -/
def HandedOut (s : St) (a : Audit) (r : Resource) : Prop :=
  a.taken.count r < (acquired s.log).count r

instance (s : St) (a : Audit) (r : Resource) : Decidable (HandedOut s a r) := by
  unfold HandedOut
  infer_instance

/-- The resources handed out, and those inside a hook that counts as active. -/
def accounted (s : St) (a : Audit) : Nat :=
  s.counted + ((acquired s.log).length - a.taken.length)

/-- A release that reports to the circuit breaker's strategy: `active_count` is
decremented, and its resource is not back. -/
def Frame.reporting : Frame → Nat
  | .reportFailure .. | .reportSuccess .. => 1
  | _ => 0

def St.reporting (s : St) : Nat := tally Frame.reporting s.frames

/-- The resources handed out, and those being acquired, released or checked. -/
def inUse (s : St) (a : Audit) : Nat := accounted s a + s.reporting

/-- A scalar is released only while it is handed out; an object that is out shares
its handle with no other object that is released. -/
def Owned (p : St × Audit) : Lbl → Prop
  | .release r =>
    (r.handle = none → p.1.active ≠ 0 → HandedOut p.1 p.2 r) ∧
    ∀ x ∈ acquired p.1.log, x.handle ≠ none → x.handle = r.handle → HandedOut p.1 p.2 x → x = r
  | _ => True

instance (p : St × Audit) : ∀ l, Decidable (Owned p l) := by
  intro l
  apply @Lbl.casesOn (fun l => Decidable (Owned p l)) l <;> intros <;> dsimp only [Owned] <;> infer_instance

/-! ## The accounts in the middle of a call -/

@[simp] theorem acquired_append (log log' : List Ev) :
    acquired (log ++ log') = acquired log ++ acquired log' := List.filterMap_append

theorem acquired_quiet {e : Ev} (h : e.quiet = true) : acquired [e] = [] := by
  cases e <;> first | rfl | cases h

theorem inc_u32 (n : Nat) : inc (u32 n) = u32 (n + 1 : Nat) := by
  unfold inc u32
  omega

theorem dec_u32 (n : Nat) : dec (u32 (n + 1 : Nat)) = u32 n := by
  unfold dec u32
  omega

/-- The accounts in the middle of a call that itself holds `b` of `active_count`. -/
structure Accounts (a : Audit) (b : Nat) (s : St) : Prop where
  active : s.active = u32 (accounted s a + b : Nat)
  taken : ∀ r, a.taken.count r ≤ (acquired s.log).count r
  nodup : s.checkedOut.Nodup
  out : ∀ i ∈ s.checkedOut, ∃ r, r.handle = some i ∧ HandedOut s a r

namespace Accounts

variable {a : Audit} {b : Nat} {s t : St}

/-- The accounts look at four fields only. -/
theorem congr (h : Accounts a b s) (h1 : t.active = s.active) (h2 : t.frames = s.frames)
    (h3 : acquired t.log = acquired s.log) (h4 : t.checkedOut = s.checkedOut) :
    Accounts a b t := by
  obtain ⟨hact, htaken, hnodup, hout⟩ := h
  have huse : accounted t a = accounted s a := by unfold accounted St.counted; rw [h2, h3]
  have hhand : ∀ r, HandedOut s a r → HandedOut t a r := by
    intro r hr
    unfold HandedOut at *
    rw [h3]
    exact hr
  refine ⟨by rw [h1, huse]; exact hact, by rw [h3]; exact htaken, by rw [h4]; exact hnodup, ?_⟩
  rw [h4]
  intro i hi
  obtain ⟨r, hr, hr'⟩ := hout i hi
  exact ⟨r, hr, hhand r hr'⟩

theorem idle (h : Accounts a b s) (idle : List Resource) : Accounts a b { s with idle := idle } :=
  ⟨h.active, h.taken, h.nodup, h.out⟩

theorem length_le (h : Accounts a b s) : a.taken.length ≤ (acquired s.log).length := by
  have hsub : a.taken.Subperm (acquired s.log) := List.subperm_iff_count.2 h.taken
  exact hsub.length_le

theorem emit (h : Accounts a b s) {e : Ev} (he : acquired [e] = []) : Accounts a b (emit s e) := by
  refine h.congr rfl rfl ?_ rfl
  show acquired (s.log ++ [e]) = _
  rw [acquired_append, he, List.append_nil]

theorem wakeWaiter (h : Accounts a b s) : Accounts a b (wakeWaiter s) := by
  obtain ⟨q, k, heq⟩ := wakeWaiter_eq s
  rw [heq]
  exact h.congr rfl rfl rfl rfl

variable {f : Frame} {r : Resource}

/-- What the call holds is the frame's from now on. -/
theorem enter (h : Accounts a f.counted s) : Accounts a 0 (enter s f) := by
  have hn : (Pool.enter s f).counted = f.counted + s.counted := tally_cons _ _ _
  have huse : accounted (Pool.enter s f) a + 0 = accounted s a + f.counted := by
    grind [accounted, Frame.counted, St.counted, acquired, enter]
  exact ⟨by rw [huse]; exact h.active, h.taken, h.nodup, h.out⟩

/-- The hook of `f` returns. -/
theorem leave (h : Accounts a 0 s) (hf : f ∈ s.frames) :
    Accounts a f.counted { s with frames := s.frames.erase f } := by
  have hn : s.counted = f.counted + tally Frame.counted (s.frames.erase f) := tally_erase _ hf
  have huse : accounted { s with frames := s.frames.erase f } a + f.counted = accounted s a + 0 := by
    grind [accounted, tally, Frame.counted, St.counted, acquired]
  exact ⟨by rw [huse]; exact h.active, h.taken, h.nodup, h.out⟩

theorem dec (h : Accounts a (b + 1) s) (idle : List Resource) :
    Accounts a b { s with idle := idle, active := dec s.active } := by
  refine ⟨?_, h.taken, h.nodup, h.out⟩
  rw [h.active]
  exact dec_u32 (accounted s a + b)

theorem inc (h : Accounts a b s) (idle : List Resource) :
    Accounts a (b + 1) { s with idle := idle, active := inc s.active } := by
  refine ⟨?_, h.taken, h.nodup, h.out⟩
  rw [h.active]
  exact inc_u32 (accounted s a + b)

/-- `acquire()` returns `r`: the call's place is the caller's from now on. -/
theorem handOut (h : Accounts a (b + 1) s) (call : Nat) (r : Resource) :
    Accounts a b (Pool.emit (checkOut s r) (.acquired call r)) := by
  obtain ⟨hact, htaken, hnodup, hout⟩ := h
  have hlen : a.taken.length ≤ (acquired s.log).length := length_le ⟨hact, htaken, hnodup, hout⟩
  have hlog : ∀ l, acquired (Pool.emit { s with checkedOut := l } (.acquired call r)).log =
      acquired s.log ++ [r] := fun l => acquired_append _ _
  have hcount : ∀ l x, HandedOut s a x →
      HandedOut (Pool.emit { s with checkedOut := l } (.acquired call r)) a x := by
    intro l x hx
    unfold HandedOut at *
    rw [hlog, List.count_append]
    omega
  -- the new entry of `checked_out`, if any, is the handle of `r`
  have hown : ∃ l, checkOut s r = { s with checkedOut := l } ∧ l.Nodup ∧
      ∀ i ∈ l, i ∈ s.checkedOut ∨ r.handle = some i := by
    unfold checkOut
    split
    · rename_i i hi
      split
      · exact ⟨s.checkedOut, rfl, hnodup, fun _ h => .inl h⟩
      · rename_i hnew
        refine ⟨_, rfl, List.nodup_cons.2 ⟨hnew, hnodup⟩, fun j hj => ?_⟩
        rcases List.mem_cons.1 hj with rfl | hj
        · exact .inr hi
        · exact .inl hj
    · exact ⟨s.checkedOut, rfl, hnodup, fun _ h => .inl h⟩
  obtain ⟨l, heq, hl, hmem⟩ := hown
  rw [heq]
  refine ⟨?_, ?_, hl, ?_⟩
  · grind [Pool.emit, accounted, emit, acquired, Frame.counted, St.counted]
  · intro x
    rw [hlog, List.count_append]
    have := htaken x
    omega
  · intro i hi
    rcases hmem i hi with hi | hi
    · obtain ⟨x, hx, hx'⟩ := hout i hi
      exact ⟨x, hx, hcount l x hx'⟩
    · refine ⟨r, hi, ?_⟩
      unfold HandedOut
      rw [hlog, List.count_append, List.count_singleton_self]
      have := htaken r
      omega

/-- A release is accepted: the caller's place is the call's from now on. -/
theorem takeBack (h : Accounts a b s) (ht : checkIn s r = some t) (hr : HandedOut s a r) :
    Accounts { a with taken := r :: a.taken } (b + 1) t := by
  obtain ⟨hact, htaken, hnodup, hout⟩ := h
  have hcount : ∀ x, (r :: a.taken).count x = a.taken.count x + if r = x then 1 else 0 := by
    intro x
    rw [List.count_cons]
    simp
  have htaken' : ∀ x, (r :: a.taken).count x ≤ (acquired s.log).count x := by grind [checkIn, HandedOut]
  have hlen : (r :: a.taken).length ≤ (acquired s.log).length :=
    List.Subperm.length_le (List.subperm_iff_count.2 htaken')
  rw [List.length_cons] at hlen
  have hact' : s.active =
      u32 (accounted s { a with taken := r :: a.taken } + (b + 1) : Nat) := by
    rw [hact]
    unfold accounted
    rw [List.length_cons]
    congr 2
    omega
  -- a resource with another handle is another resource
  have hkeep : ∀ i x, r.handle ≠ some i → x.handle = some i → HandedOut s a x →
      HandedOut s { a with taken := r :: a.taken } x := by
    intro i x hi hx hx'
    unfold HandedOut at *
    rw [hcount, if_neg]
    · exact hx'
    · rintro rfl
      exact hi hx
  obtain ⟨-, ⟨hnone, rfl⟩ | ⟨i, hi, -, rfl⟩⟩ := checkIn_cases ht
  · refine ⟨hact', htaken', hnodup, fun i hi => ?_⟩
    obtain ⟨x, hx, hx'⟩ := hout i hi
    exact ⟨x, hx, hkeep i x (by rw [hnone]; exact nofun) hx hx'⟩
  · refine ⟨hact', htaken', hnodup.erase i, fun j hj => ?_⟩
    obtain ⟨hne, hj⟩ := (List.Nodup.mem_erase_iff hnodup).1 hj
    obtain ⟨x, hx, hx'⟩ := hout j hj
    refine ⟨x, hx, hkeep j x (fun he => hne ?_) hx hx'⟩
    rw [hi] at he
    exact (Option.some.inj he).symm

end Accounts

/-! ## Steps -/

section Steps

variable {c : Cfg} {A : Audit} {s₀ s : St} {l : Lbl} {a b k : Nat} {x : Option Resource}

/-- An accepted release is of something handed out: for an object by `checked_out`. -/
theorem handedOut_of_checkIn {t : St} (h : Accounts A 0 s) (ht : checkIn s r = some t)
    (hg : Owned (s, A) (.release r)) : HandedOut s A r := by
  obtain ⟨hscalar, hobject⟩ := hg
  obtain ⟨hact, ⟨hnone, -⟩ | ⟨i, hi, hmem, -⟩⟩ := checkIn_cases ht
  · exact hscalar hnone hact
  · grind [h.out, acquired, HandedOut]

/-- Only an accepted release changes `taken`. -/
theorem audit_taken_eq {t : St} (hr : ∀ r, l = .release r → checkIn s₀ r = none) :
    (audit s₀ l t A).taken = A.taken := by
  unfold audit
  split
  · rw [hr _ rfl]; rfl
  all_goals rfl

theorem Start.accounts (h : Start s₀ l a b k x s) (hA : Accounts A 0 s₀) (hg : Owned (s₀, A) l) (t : St) :
    Accounts (audit s₀ l t A) b s := by
  have same : ∀ {b : Nat} {s : St}, Accounts A b s → (∀ r, l = .release r → checkIn s₀ r = none) →
      Accounts (audit s₀ l t A) b s := by
    intro b s h hr
    have htaken := audit_taken_eq (t := t) (A := A) hr
    obtain ⟨h1, h2, h3, h4⟩ := h
    exact ⟨by unfold accounted at *; rw [htaken]; exact h1, by rw [htaken]; exact h2, h3,
      by unfold HandedOut at *; rw [htaken]; exact h4⟩
  cases h with
  | call _ hr => exact same (hA.congr rfl rfl rfl rfl) hr
  | @taken r t' ht =>
    have hback := hA.takeBack ht (handedOut_of_checkIn hA ht hg)
    unfold audit
    dsimp only
    rw [ht, if_pos (Option.isSome_some (a := t'))]
    exact hback.congr rfl rfl rfl rfl
  | close =>
    obtain ⟨q, k, -, heq⟩ := wakeAllWithException_eq { newCall s₀ with closed := true } (.pool "Pool is closed")
    rw [heq]
    exact same (hA.congr rfl rfl rfl rfl) nofun
  | run hx hlog =>
    refine same (hA.congr rfl rfl ?_ rfl) nofun
    rcases hlog with rfl | rfl
    · rfl
    · exact (acquired_append _ _).trans (List.append_nil _)
  | woken _ _ hl => exact same (hA.congr rfl rfl rfl rfl) (by rintro r rfl; rcases hl with hl | hl <;> cases hl)
  | ret hf => exact same (hA.leave hf) nofun
  | circuit | tick => exact same (hA.congr rfl rfl rfl rfl) nofun

theorem Mid.accounts (h : Mid c s₀ l a b k x s) (hs : ∀ {a b k x s}, Start s₀ l a b k x s → Accounts A b s) :
    Accounts A b s := by
  induction h with
  | start h => exact hs h
  | dec _ ih => exact ih.dec _
  | push _ _ ih => exact ih.idle _
  | pop _ _ _ _ ih => exact ih.inc _
  | drain _ _ _ ih => exact ih.idle _
  | create h => exact (hs h).inc _
  | refill _ h => exact hs h
  | made _ r ih => exact ih.emit rfl
  | destroyed _ ih => exact ih.emit rfl
  | drop _ _ _ _ ih => exact ih
  | giveUp _ h => exact hs h

theorem Done.accounts (h : Done c s₀ l s) (hs : ∀ {a b k x s}, Start s₀ l a b k x s → Accounts A b s) :
    Accounts A 0 s := by
  cases h with
  | same h => exact hs h
  | say hm he => exact (hm.accounts hs).emit (acquired_quiet he)
  | wake hm he => exact (hm.accounts hs).wakeWaiter.emit (acquired_quiet he)
  | tick hm => exact (hm.accounts hs).wakeWaiter
  | enter hm => exact (hm.accounts hs).enter
  | handOut hm => exact (hm.accounts hs).handOut _ _
  | noPlace hm _ call mode =>
    cases mode with
    | acquire t => exact (hm.accounts hs).congr rfl rfl rfl rfl
    | tryAcquire => exact (hm.accounts hs).emit rfl

end Steps

/-! ## Runs -/

theorem create_accounts (c : Cfg) (outs : List Outcome) :
    Accounts ⟨[], false⟩ 0 (create c outs) := by
  have hlog : acquired (create c outs).log = [] := by
    show List.filterMap Ev.acquired? (List.map Ev.created _) = []
    rw [List.filterMap_map]
    exact List.filterMap_eq_nil_iff.2 fun _ _ => rfl
  refine ⟨?_, fun r => Nat.zero_le _, List.nodup_nil, fun i hi => (by cases hi)⟩
  unfold accounted
  rw [hlog]
  rfl

theorem accounts_inductive (c : Cfg) :
    ((audited c).restrict Owned).Inductive fun p => Accounts p.2 0 p.1 where
  init p hi := by
    obtain ⟨⟨_, _, _, _, outs, -, hp⟩, ha⟩ := hi
    rw [hp, ha]
    exact create_accounts c outs
  step p l q h hs := by
    obtain ⟨hst, hq⟩ := LTS.recorded_step hs.2
    rw [hq]
    exact (step_done hst).accounts fun hstart => hstart.accounts h hs.1 q.1

theorem exists_audited_run (min max : Nat) (hle : min ≤ max) (h1 : 1 ≤ max) (hlt : max < 4294967296)
    (outs : List Outcome) (labels : List Lbl) {P : St × Audit → Prop} [DecidablePred P]
    (h : (LTS.exec (LTS.recorded (step ⟨min, max, true⟩) audit)
      (create ⟨min, max, true⟩ outs, ⟨[], false⟩) labels).any (P ·) = true) :
    ∃ x, (audited ⟨min, max, true⟩).Reachable x ∧ P x :=
  LTS.exists_of_exec ⟨create_init hle h1 hlt outs, rfl⟩ labels h

theorem exists_restricted_audited_run (G : St × Audit → Lbl → Prop) [∀ x l, Decidable (G x l)]
    (min max : Nat) (hle : min ≤ max) (h1 : 1 ≤ max) (hlt : max < 4294967296)
    (outs : List Outcome) (labels : List Lbl) {P : St × Audit → Prop} [DecidablePred P]
    (h : (LTS.execG G (LTS.recorded (step ⟨min, max, true⟩) audit)
      (create ⟨min, max, true⟩ outs, ⟨[], false⟩) labels).any (P ·) = true) :
    ∃ x, ((audited ⟨min, max, true⟩).restrict G).Reachable x ∧ P x :=
  LTS.exists_of_execG ⟨create_init hle h1 hlt outs, rfl⟩ labels h

/-- **Counterexample.** A scalar is handed out once and released twice, the second
time while the first release is inside `beforeRelease`. Both are accepted, and the
counter wraps. -/
theorem double_release_wraps :
    ∃ x, (audited ⟨0, 1, true⟩).Reachable x ∧ x.1.active = 4294967295 ∧
      acquired x.1.log = [⟨7, none⟩] ∧ x.2.taken = [⟨7, none⟩, ⟨7, none⟩] := by
  exact exists_audited_run 0 1 (by decide) (by decide) (by decide) []
    [.acquire 0, .ret (.factory 0 (.acquire 0)) (.made ⟨7, none⟩), .release ⟨7, none⟩,
      .release ⟨7, none⟩, .ret (.beforeRelease 1 ⟨7, none⟩) .ok,
      .ret (.beforeRelease 2 ⟨7, none⟩) .ok] (by decide +kernel)

/-- Inside `reportSuccess` a resource is being released that `active_count` has left out,
whoever released it. -/
theorem reporting_uncounted :
    ∃ x, ((audited ⟨0, 1, true⟩).restrict Owned).Reachable x ∧ x.1.active = 0 ∧ inUse x.1 x.2 = 1 := by
  exact exists_restricted_audited_run Owned 0 1 (by decide) (by decide) (by decide) []
    [.acquire 0, .ret (.factory 0 (.acquire 0)) (.made ⟨7, some 3⟩), .release ⟨7, some 3⟩,
      .ret (.beforeRelease 1 ⟨7, some 3⟩) .ok] (by decide +kernel)

/-- A release that `Owned` excludes for a scalar takes back what nobody has. -/
theorem unowned_overdraws {s : St} {a : Audit} (hscalar : r.handle = none) (hact : s.active ≠ 0)
    (hno : ¬ HandedOut s a r) (s' : St) : (acquired s.log).count r < (audit s (.release r) s' a).taken.count r := by
  have haccept : checkIn s r = some s := by
    unfold checkIn
    rw [if_neg hact, hscalar]
  have haudit : (audit s (.release r) s' a).taken = r :: a.taken := by
    unfold audit
    dsimp only
    rw [haccept]
    rfl
  rw [haudit, List.count_cons_self]
  unfold HandedOut at hno
  omega

/-- What a refused release does. -/
theorem release_refused {c : Cfg} {s s' : St} (h : checkIn s r = none) (hs : step c s (.release r) = some s') :
    s' = emit (newCall s) (.threw s.calls (.pool "Resource is not acquired from this pool")) := by
  cases hs
  unfold release
  rw [checkIn_newCall, h]
  rfl

/-- **Check-out accounting.** In every run in which scalars are released only while
they are handed out, `active_count` is the number of resources in use without those
whose release reports to the strategy, as a `uint32_t`, so it is that number when no
release does; no value is taken back more often than it was handed out; and a refused
release throws and changes none of the three. -/
theorem checkout_accounting (c : Cfg) (s : St) (a : Audit)
    (hr : ((audited c).restrict Owned).Reachable (s, a)) :
    s.active = (inUse s a - s.reporting) % 4294967296 ∧
    (s.reporting = 0 → s.active = inUse s a % 4294967296) ∧
    a.taken.length ≤ (acquired s.log).length ∧
    (∀ r, a.taken.count r ≤ (acquired s.log).count r) ∧
    ∀ r s', step c s (.release r) = some s' → checkIn s r = none →
      s'.idle = s.idle ∧ s'.active = s.active ∧ s'.checkedOut = s.checkedOut ∧
      s'.log = s.log ++ [.threw s.calls (.pool "Resource is not acquired from this pool")] := by
  have h := (accounts_inductive c).reachable (s, a) hr
  have hact := h.active
  unfold u32 at hact
  dsimp only at hact
  unfold inUse
  refine ⟨by omega, by omega, h.length_le, h.taken, fun r s' hs hno => ?_⟩
  rw [release_refused hno hs]
  exact ⟨rfl, rfl, rfl, rfl⟩

/-- An object is released twice, the second time while the first release is inside
`beforeRelease`; a scalar is handed out meanwhile. -/
theorem checkout_accounting_overlap :
    ∃ x : St × Audit, x.1.active = 2 ∧ x.2.taken = [⟨7, some 3⟩] ∧
      x.1.active = inUse x.1 x.2 % 4294967296 := by
  obtain ⟨x, hr, h1, h2, h3⟩ := exists_restricted_audited_run Owned 0 2 (by decide) (by decide) (by decide) []
    [.acquire 0, .ret (.factory 0 (.acquire 0)) (.made ⟨7, some 3⟩), .acquire 0,
      .ret (.factory 1 (.acquire 0)) (.made ⟨8, none⟩), .release ⟨7, some 3⟩,
      .release ⟨7, some 3⟩]
    (P := fun x => x.1.active = 2 ∧ x.2.taken = [⟨7, some 3⟩] ∧ x.1.reporting = 0) (by decide +kernel)
  exact ⟨x, h1, h2, (checkout_accounting ⟨0, 2, true⟩ x.1 x.2 hr).2.1 h3⟩

end PhpAsync.L2.Pool
