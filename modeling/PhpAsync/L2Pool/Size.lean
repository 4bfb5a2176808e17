import PhpAsync.L2Pool.Steps

/-!
# `Async\Pool`: the size bound

`idle + active_count ≤ max_size` can only hold in every state if a resource that
is in neither count keeps its place. pool.c takes care of that for the hooks of
`acquire()` and `beforeRelease` by counting the resource as active; three places
do not:

* `zend_async_pool_release` decrements `active_count` before `reportSuccess` and
  pushes the resource after it;
* the healthcheck tick calls the factory for a replacement without counting it;
* the release of a scalar is only refused at `active_count == 0`, so releases
  that overlap in `beforeRelease` can decrement below 0.

`Books a b` counts what the calls in progress still owe: `a` pushes without a
place, `b` decrements. `RoomCovered` keeps the runs in which nobody takes a place
that is owed to one of the first two, and no release is accepted while every active
resource is inside a hook; `size_bound` is the bound over these runs, and
`release_exceeds_max` a run outside them.
-/
namespace PhpAsync.L2.Pool

open PhpAsync.Core PhpAsync.L1

def St.owed (s : St) : Nat := tally Frame.owed s.frames

def St.counted (s : St) : Nat := tally Frame.counted s.frames

/-- In the middle of a call that itself owes `a` pushes and holds `b` of
`active_count`. -/
structure Books (c : Cfg) (a b : Nat) (s : St) : Prop where
  room : s.idle.length + s.active + s.owed + a ≤ c.maxSize
  counted : s.counted + b ≤ s.active

namespace Books

variable {c : Cfg} {a b : Nat} {s : St}

theorem mono {a' b' : Nat} (h : Books c a b s) (ha : a' ≤ a) (hb : b' ≤ b) : Books c a' b' s := by
  obtain ⟨h1, h2⟩ := h
  exact ⟨by omega, by omega⟩

theorem emit (h : Books c a b s) (e : Ev) : Books c a b (emit s e) := ⟨h.room, h.counted⟩

theorem waiters (h : Books c a b s) (q : WaitQueue Wait) (k : Nat → Waker) :
    Books c a b { s with waiters := q, wakers := k } := ⟨h.room, h.counted⟩

theorem wakeWaiter (h : Books c a b s) : Books c a b (wakeWaiter s) := by
  obtain ⟨q, k, heq⟩ := wakeWaiter_eq s
  rw [heq]
  exact h.waiters q k

variable {f : Frame} {s : St}

/-- What the call owes is the frame's from now on. -/
theorem enter (h : Books c f.owed f.counted s) : Books c 0 0 (enter s f) := by
  obtain ⟨h1, h2⟩ := h
  have ho : (Pool.enter s f).owed = f.owed + s.owed := tally_cons _ _ _
  have hn : (Pool.enter s f).counted = f.counted + s.counted := tally_cons _ _ _
  have hi : (Pool.enter s f).idle = s.idle := rfl
  have ha : (Pool.enter s f).active = s.active := rfl
  refine ⟨?_, ?_⟩
  · rw [ho, hi, ha]; omega
  · rw [hn, ha]; omega

/-- The hook of `f` returns. -/
theorem leave (h : Books c 0 0 s) (hf : f ∈ s.frames) :
    Books c f.owed f.counted { s with frames := s.frames.erase f } := by
  obtain ⟨h1, h2⟩ := h
  have ho : s.owed = f.owed + tally Frame.owed (s.frames.erase f) := tally_erase _ hf
  have hn : s.counted = f.counted + tally Frame.counted (s.frames.erase f) := tally_erase _ hf
  refine ⟨?_, ?_⟩
  · grind [tally, Frame.owed, St.owed]
  · show tally Frame.counted (s.frames.erase f) + f.counted ≤ s.active
    omega

theorem dec (hc : c.maxSize < 4294967296) (h : Books c a (b + 1) s) :
    Books c (a + 1) b { s with active := dec s.active } := by
  obtain ⟨h1, h2⟩ := h
  have hd : Pool.dec s.active = s.active - 1 := dec_eq (by omega) (by omega)
  refine ⟨?_, ?_⟩
  · show s.idle.length + Pool.dec s.active + s.owed + (a + 1) ≤ c.maxSize
    omega
  · show s.counted + b ≤ Pool.dec s.active
    omega

theorem push (h : Books c (a + 1) b s) (r : Resource) :
    Books c a b { s with idle := s.idle ++ [r] } := by
  obtain ⟨h1, h2⟩ := h
  refine ⟨?_, h2⟩
  show (s.idle ++ [r]).length + s.active + s.owed + a ≤ c.maxSize
  rw [List.length_append, List.length_singleton]
  omega

theorem pop (hc : c.maxSize < 4294967296) (h : Books c a b s) {r : Resource} {rest : List Resource}
    (hidle : s.idle = r :: rest) :
    Books c a (b + 1) { s with idle := rest, active := inc s.active } := by
  obtain ⟨h1, h2⟩ := h
  rw [hidle, List.length_cons] at h1
  have hi : inc s.active = s.active + 1 := inc_eq (by omega)
  refine ⟨?_, ?_⟩
  · show rest.length + inc s.active + s.owed + a ≤ c.maxSize
    omega
  · show s.counted + (b + 1) ≤ inc s.active
    omega

theorem create (hc : c.maxSize < 4294967296) (h : Books c a b s)
    (hlt : s.idle.length + s.active + s.owed + a < c.maxSize) :
    Books c a (b + 1) { s with active := inc s.active } := by
  obtain ⟨h1, h2⟩ := h
  have hi : inc s.active = s.active + 1 := inc_eq (by omega)
  refine ⟨?_, ?_⟩
  · show s.idle.length + inc s.active + s.owed + a ≤ c.maxSize
    omega
  · show s.counted + (b + 1) ≤ inc s.active
    omega

/-- A resource handed out stays active. -/
theorem checkOut (h : Books c a (b + 1) s) (r : Resource) : Books c a b (checkOut s r) := by
  obtain ⟨h1, h2⟩ := h.mono (Nat.le_refl a) (Nat.le_succ b)
  obtain ⟨l, heq⟩ := checkOut_eq s r
  rw [heq]
  exact ⟨h1, h2⟩

end Books

/-! ## Steps -/

/-- The free places are all owed to a release in `reportSuccess` or to a factory
of a tick. -/
def Crowded (c : Cfg) (s : St) : Prop :=
  s.idle = [] ∧ s.active < c.maxSize ∧ c.maxSize ≤ s.active + s.owed

/-- Nobody takes a place that is owed, a tick makes a replacement only for a free
place, and a release is accepted only while an active resource is not inside a
hook. -/
def RoomCovered (c : Cfg) (s : St) (l : Lbl) : Prop :=
  (Attempts s l → s.closed = false → s.circuit ≠ .inactive → ¬ Crowded c s) ∧
  match l with
  | .ret (.unhealthy _) _ => u32 s.total < c.minSize → s.idle.length + s.active + s.owed < c.maxSize
  | .release r =>
    s.active ≠ 0 → (∀ i, r.handle = some i → i ∈ s.checkedOut) → s.counted < s.active
  | _ => True

instance (s : St) : ∀ l, Decidable (Attempts s l) := by
  intro l
  unfold Attempts
  split <;> infer_instance

instance (c : Cfg) (s : St) : Decidable (Crowded c s) := by
  unfold Crowded
  infer_instance

instance (r : Resource) (l : List Nat) : Decidable (∀ i, r.handle = some i → i ∈ l) :=
  match h : r.handle with
  | none => isTrue fun _ hi => by cases hi
  | some i => decidable_of_iff (i ∈ l) ⟨fun hm j hj => by cases hj; exact hm, fun hm => hm i rfl⟩

instance (c : Cfg) (s : St) (l : Lbl) : Decidable (RoomCovered c s l) :=
  @instDecidableAnd _ _ inferInstance (by split <;> infer_instance)

section Steps

variable {c : Cfg} {s₀ : St} {l : Lbl} {a b k : Nat} {x : Option Resource}

/-- An attempt sees the counts of the state before the step; a frame that has returned owes
nothing any more. -/
theorem Start.attempts (h : Start s₀ l a b k x s) (ha : Attempts s₀ l) :
    (s.idle, s.active, s.closed, s.circuit) = (s₀.idle, s₀.active, s₀.closed, s₀.circuit) ∧ s.owed ≤ s₀.owed := by
  cases h with
  | ret hf => exact ⟨rfl, by rw [show s₀.owed = _ from tally_erase _ hf]; exact Nat.le_add_left _ _⟩
  | taken | close | circuit | tick => exact ha.elim
  | woken _ _ hl => rcases hl with rfl | rfl <;> exact ha.elim
  | _ => exact ⟨rfl, Nat.le_refl _⟩

theorem Start.books (h : Start s₀ l a b k x s) (hb : Books c 0 0 s₀) (hg : RoomCovered c s₀ l) : Books c a b s := by
  cases h with
  | @taken r t ht =>
    obtain ⟨ha, hr⟩ := checkIn_cases ht
    rcases hr with ⟨hr, rfl⟩ | ⟨i, hr, hi, rfl⟩
    · exact ⟨hb.room, hg.2 ha fun i hi => by rw [hr] at hi; cases hi⟩
    · refine ⟨hb.room, hg.2 ha fun j hj => ?_⟩
      rw [hr] at hj
      cases hj
      exact hi
  | close =>
    obtain ⟨q, k, -, heq⟩ := wakeAllWithException_eq { newCall s₀ with closed := true } (.pool "Pool is closed")
    rw [heq]
    exact ⟨hb.room, hb.counted⟩
  | ret hf => exact hb.leave hf
  | _ => exact ⟨hb.room, hb.counted⟩

/-- A place is created only where none is owed, a replacement only for a free place. -/
theorem Mid.books (hc : c.maxSize < 4294967296) (h : Mid c s₀ l a b k x s) (hb : Books c 0 0 s₀)
    (hg : RoomCovered c s₀ l) : Books c a b s := by
  induction h with
  | start hs => exact hs.books hb hg
  | dec _ ih => exact ih.dec hc
  | push _ _ ih => exact ih.push _
  | pop _ _ hidle _ ih => exact ih.pop hc hidle
  | @drain r rest s _ _ hidle ih =>
    obtain ⟨h1, h2⟩ := ih
    rw [hidle, List.length_cons] at h1
    refine ⟨?_, h2⟩
    show rest.length + s.active + s.owed + 0 ≤ c.maxSize
    omega
  | create hs _ ha ho hi hidle hlt =>
    have hs' := hs.books hb hg
    have hroom := hs'.room
    rw [total_of_idle_nil hidle (by omega)] at hlt
    obtain ⟨he, howed⟩ := hs.attempts ha
    simp only [Prod.mk.injEq] at he
    obtain ⟨he1, he2, he3, he4⟩ := he
    refine hs'.create hc ?_
    have hno := hg.1 ha (he3 ▸ ho) (he4 ▸ hi)
    rw [hidle, List.length_nil]
    have : s₀.active + s₀.owed < c.maxSize :=
      Nat.lt_of_not_le fun hge => hno ⟨he1 ▸ hidle, he2 ▸ hlt, hge⟩
    omega
  | refill hl hs hlt =>
    subst hl
    have hlt' := hg.2
    cases hs with
    | @ret f _ hf =>
      refine ⟨?_, (hb.leave hf).counted⟩
      have := hlt' hlt
      have howed : s₀.owed = Frame.owed (.unhealthy _) + tally Frame.owed (s₀.frames.erase (.unhealthy _)) :=
        tally_erase _ hf
      show s₀.idle.length + s₀.active + tally Frame.owed (s₀.frames.erase (.unhealthy _)) + 1 ≤ c.maxSize
      omega
  | made _ r ih => exact ih.emit _
  | destroyed _ ih => exact ih.emit _
  | drop _ ha _ _ ih => exact ih.mono ha (Nat.le_refl _)
  | giveUp _ hs => exact hs.books hb hg

theorem Done.books (hc : c.maxSize < 4294967296) (h : Done c s₀ l s) (hb : Books c 0 0 s₀)
    (hg : RoomCovered c s₀ l) : Books c 0 0 s := by
  cases h with
  | same hs => exact hs.books hb hg
  | say hm => exact (hm.books hc hb hg).emit _
  | wake hm => exact (hm.books hc hb hg).wakeWaiter.emit _
  | tick hm => exact ((hm.books hc hb hg).mono (Nat.zero_le _) (Nat.le_refl 0)).wakeWaiter
  | enter hm => exact (hm.books hc hb hg).enter
  | handOut hm => exact ((hm.books hc hb hg).checkOut _).emit _
  | noPlace hm _ call mode =>
    cases mode with
    | acquire t => exact (hm.books hc hb hg).waiters _ _
    | tryAcquire => exact (hm.books hc hb hg).emit _

/-- An attempt that `RoomCovered` excludes takes an owed place: when the calls that owe
a push return, the pool is above its maximum. -/
theorem Crowded.attempt (hc : c.maxSize < 4294967296) (h : Crowded c s) (ho : s.closed = false)
    (hi : s.circuit ≠ .inactive) {has : Bool} (hmay : has = true ∨ 0 < unreserved c s) (call : Nat) (mode : Mode) :
    c.maxSize < (attempt c s call mode has).active + (attempt c s call mode has).owed := by
  obtain ⟨hidle, hlt, hge⟩ := h
  have hu := total_of_idle_nil hidle (show s.active < 4294967296 by omega)
  rcases attempt_cases c s call mode has with ⟨hno, -⟩ |
    ⟨-, -, ⟨r, rest, hcons, -⟩ | ⟨-, -, -, heq⟩ | ⟨hno, -⟩⟩
  · rcases hno with hno | hno
    · rw [ho] at hno; cases hno
    · exact absurd hno hi
  · rw [hidle] at hcons; cases hcons
  · rw [heq]
    have hinc : inc s.active = s.active + 1 := inc_eq (by omega)
    show c.maxSize < inc s.active + tally Frame.owed (.factory call mode :: s.frames)
    rw [tally_cons, hinc]
    have : s.owed = tally Frame.owed s.frames := rfl
    omega
  · grind

end Steps

/-! ## The bound -/

theorem create_books {c : Cfg} (hle : c.minSize ≤ c.maxSize) (outs : List Outcome) :
    Books c 0 0 (create c outs) :=
  ⟨Nat.le_trans (prewarm_length c.minSize outs) hle, Nat.le_refl 0⟩

theorem books_inductive {c : Cfg} (hc : c.maxSize < 4294967296) (hle : c.minSize ≤ c.maxSize) :
    ((lts c).restrict (RoomCovered c)).Inductive (Books c 0 0) where
  init s hi := by
    obtain ⟨_, _, _, _, outs, -, rfl⟩ := hi
    exact create_books hle outs
  step _ _ _ h hs := (step_done hs.2).books hc h hs.1

/-- **Counterexample.** With one place, a release is inside `reportSuccess`: the
resource is in neither count, another call finds the place free and makes a
second resource, and the release pushes its own. -/
theorem release_exceeds_max :
    ∃ s, (lts ⟨0, 1, true⟩).Reachable s ∧ s.idle.length = 1 ∧ s.active = 1 := by
  exact exists_run 0 1 (by decide) (by decide) (by decide) []
    [.acquire 0, .ret (.factory 0 (.acquire 0)) (.made ⟨7, none⟩), .release ⟨7, none⟩,
      .ret (.beforeRelease 1 ⟨7, none⟩) .ok, .acquire 0,
      .ret (.factory 2 (.acquire 0)) (.made ⟨8, none⟩), .ret (.reportSuccess 1 ⟨7, none⟩) .ok] (by decide +kernel)

/-- **The size bound.** In every run in which nobody takes a place that is owed to a
release or a replacement, and no release is accepted while every active resource is
inside a hook, the pool never has more than `max_size` resources. -/
theorem size_bound (c : Cfg) (s : St) (hle : c.minSize ≤ c.maxSize)
    (hr : ((lts c).restrict (RoomCovered c)).Reachable s) :
    s.idle.length + s.active ≤ c.maxSize := by
  have hb := (books_inductive (reachable_lt hr.of_restrict).2 hle).reachable s hr
  have := hb.room
  omega

/-- A full pool: one resource is idle again, a second call is inside the factory. -/
theorem size_bound_full :
    ∃ s : St, s.idle.length + s.active = 2 ∧ s.idle.length + s.active ≤ 2 := by
  obtain ⟨s, hr, hp⟩ := exists_restricted_run (RoomCovered ⟨0, 2, true⟩) 0 2 (by decide) (by decide)
    (by decide) []
    [.acquire 0, .ret (.factory 0 (.acquire 0)) (.made ⟨7, none⟩), .release ⟨7, none⟩,
      .ret (.beforeRelease 1 ⟨7, none⟩) .ok, .acquire 0, .ret (.reportSuccess 1 ⟨7, none⟩) .ok]
    (P := fun s => s.idle.length + s.active = 2) (by decide +kernel)
  exact ⟨s, hp, size_bound ⟨0, 2, true⟩ s (by decide) hr⟩

end PhpAsync.L2.Pool
