import PhpAsync.L2TaskGroup.Concurrency

/-!
# `Async\TaskGroup`: callers suspended in `spawn()`

A caller that finds neither a slot nor room in the queue suspends. Places become free
in two ways, and the trigger of the head of the callers is fired only in one: a
pending task that is started leaves its place in the queue to the head, but a task
that ends while nothing is pending leaves its slot to nobody. The head also keeps its
place in the vector until it runs, so that a second start fires the same caller again.

A fired caller is a token for one free place. `Places c k` counts: the free places are
at most the fired callers and `k` more, as long as some caller is not fired. Steps that
free a place without a token break it (`wakeup_lost`); `Relayed` keeps the runs in
which a token is left over, or the place is passed on, and over these a group with
suspended callers and no token is full (`suspended_only_when_full`).
-/
namespace PhpAsync.L2.TaskGroup

open PhpAsync.Core PhpAsync.L1

/-- The callers that were woken and have not run. -/
def St.fired (s : St) : Nat := s.spawners.countP fun sp => sp.fired

/-- Free slots and free places in the queue. -/
def freePlaces (c : Cfg) (s : St) : Int :=
  (c.concurrency - s.active) + (c.queueLimit - s.pendingCount)

/-- While a caller of an open group waits unfired, all free places but `k` have a
fired caller. -/
def Covered (c : Cfg) (k : Int) (s : St) : Prop :=
  s.isSealed = false → (∃ sp ∈ s.spawners, sp.fired = false) → freePlaces c s ≤ s.fired + k

instance (c : Cfg) (k : Int) (s : St) : Decidable (Covered c k s) := by
  unfold Covered
  infer_instance

structure Places (c : Cfg) (k : Int) (s : St) : Prop where
  cap : s.active ≤ c.concurrency
  room : s.pendingCount ≤ c.queueLimit
  pendings : s.pendings ≤ s.pendingCount
  covered : Covered c k s

/-! ## Spawners and pending tasks -/

section Lists

variable {s : St}

theorem fired_erase {sp : Spawner} (h : sp ∈ s.spawners) :
    (s.spawners.erase sp).countP (fun sp => sp.fired) + (if sp.fired then 1 else 0) = s.fired := by
  unfold St.fired
  have hperm := (List.perm_cons_erase h).countP_eq fun sp : Spawner => sp.fired
  rw [hperm, List.countP_cons]

/-- Firing the head makes one token, unless it has one. -/
theorem fireOneSlotWaiter_fired (s : St) :
    s.fired ≤ (fireOneSlotWaiter s).fired ∧
    ((s.spawners.head?.any fun sp => !sp.fired) = true → (fireOneSlotWaiter s).fired = s.fired + 1) ∧
    ((∃ sp ∈ (fireOneSlotWaiter s).spawners, sp.fired = false) → ∃ sp ∈ s.spawners, sp.fired = false) := by
  unfold fireOneSlotWaiter
  split
  · grind
  · rename_i sp rest hcons
    unfold St.fired
    rw [hcons, List.countP_cons, List.countP_cons_of_pos (by rfl)]
    refine ⟨?_, fun h => ?_, ?_⟩
    · split <;> omega
    · have hsp : sp.fired = false := by simpa using h
      rw [hsp, if_neg Bool.false_ne_true]
    · rintro ⟨x, hx, hf⟩
      rcases List.mem_cons.1 hx with rfl | hx
      · cases hf
      · exact ⟨x, List.mem_cons_of_mem sp hx, hf⟩

theorem mem_settle_of_ne {key : Key} {l : List Entry} {e : Entry} (he : e ∈ l) (hne : e.key ≠ key)
    (t : Task) : e ∈ settle key t l := by
  cases hk : hasKey key l with
  | false =>
    rw [settle_of_not_hasKey hk]
    exact he
  | true => grind [split_of_hasKey]

theorem ended_pendings (s : St) (co : Coro) (out : Outcome) :
    (s.ended co out).pendings ≤ s.pendings := by
  have hout : out.task.isPending = false := by cases out <;> rfl
  unfold St.pendings St.ended
  cases hk : hasKey co.key s.tasks with
  | false =>
    exact Nat.le_of_eq (by rw [settle_of_not_hasKey hk])
  | true => grind [split_of_hasKey]

end Lists

namespace Places

variable {c : Cfg} {k : Int} {s t : St}

theorem mono (h : Places c k s) {k' : Int} (hk : k ≤ k') : Places c k' s := by
  refine ⟨h.cap, h.room, h.pendings, fun hs hu => ?_⟩
  have := h.covered hs hu
  omega

/-- What is not counted may change, and the group may be sealed. -/
theorem congr (h : Places c k s) (htasks : t.tasks.Sublist s.tasks) (hactive : t.active = s.active)
    (hpending : t.pendingCount = s.pendingCount)
    (hspawners : t.spawners.map Spawner.fired = s.spawners.map Spawner.fired)
    (hsealed : t.isSealed = false → s.isSealed = false) : Places c k t := by
  have hfired : t.fired = s.fired := by
    have hmap : ∀ l : List Spawner, (l.countP fun sp => sp.fired) = (l.map Spawner.fired).countP id := by
      intro l
      rw [List.countP_map]
      rfl
    unfold St.fired
    rw [hmap, hmap, hspawners]
  refine ⟨hactive ▸ h.cap, hpending ▸ h.room, ?_, fun hs hu => ?_⟩
  · grind [htasks.countP_le, h.pendings, St.pendings]
  · have hu' : ∃ sp ∈ s.spawners, sp.fired = false := by
      obtain ⟨sp, hsp, hf⟩ := hu
      have hm : false ∈ s.spawners.map Spawner.fired := hspawners ▸ List.mem_map.2 ⟨sp, hsp, hf⟩
      exact List.mem_map.1 hm
    have := h.covered (hsealed hs) hu'
    unfold freePlaces at this ⊢
    rw [hactive, hpending, hfired]
    exact this

theorem aside (h : Places c k s) (ha : Aside c s t) : Places c k t :=
  h.congr ha.tasks ha.active ha.pendingCount (by rw [ha.spawners]) fun hs => by
    rw [← ha.isSealed]; exact hs

theorem emit (h : Places c k s) (e : Ev) : Places c k (emit s e) := h.congr (.refl _) rfl rfl rfl id

/-- A sealed group owes nobody a place. -/
theorem shut (h : Places c k s) (b : Bool) : Places c k (s.seal b) :=
  ⟨h.cap, h.room, h.pendings, fun hs _ => by cases hs⟩

theorem tryComplete (h : Places c k s) (d : Bool) : Places c k (tryComplete c d s) :=
  tryComplete_rule d h fun _ _ => (h.aside (resolveWaiters_aside c d s)).congr (.refl _) rfl rfl rfl id

/-- A caller takes one of the free places, or suspends when there is none. -/
theorem entered {own fresh : Prop} {call : Nat} {key : Key} (hc : 0 < c.concurrency) (hc' : c.concurrency ≤ 2147483647)
    (hq : 0 < c.queueLimit) (hq' : c.queueLimit < 4294967296) (h : Places c 1 s) (he : Entered c own fresh s call key t)
    (hrefused : own ∨ s.isSealed = true ∨ s.isCompleted = true ∨ hasSlot c s = true ∧ s.scopeClosed = true →
      Places c 0 s) : Places c 0 t := by
  have hcap := h.cap
  have hroom := h.room
  have hpend := h.pendings
  have hcov : Covered c 0 { s with active := s.active + 1 } := by
    intro hs hu
    have := h.covered hs hu
    unfold freePlaces at this ⊢
    show (c.concurrency - (s.active + 1)) + (c.queueLimit - s.pendingCount) ≤ (s.fired : Int) + 0
    omega
  cases he with
  | refused f hwhy => exact (hrefused hwhy).emit _
  | waits _ hslot hfull =>
    simp only [hasSlot, queueIsFull, Bool.and_eq_true, Bool.or_eq_false_iff, decide_eq_false_iff_not,
      decide_eq_true_eq, i32_of_le hc'] at hslot hfull
    refine ⟨hcap, hroom, hpend, fun _ _ => ?_⟩
    show (c.concurrency - s.active) + (c.queueLimit - s.pendingCount) ≤ ((St.fired _ : Nat) : Int) + 0
    omega
  | runs _ _ hslot =>
    have hlt := hasSlot_lt hslot hc
    rw [i32_of_le hc'] at hlt
    refine ⟨?_, hroom, ?_, hcov⟩
    · show s.active + 1 ≤ _
      omega
    · unfold St.pendings at hpend ⊢
      rw [List.countP_append, List.countP_cons_of_neg Bool.false_ne_true]
      exact hpend
  | queued _ _ _ hlt =>
    have hlt : s.pendingCount < c.queueLimit := by grind [queueIsFull]
    have hmod : (s.pendingCount + 1) % 4294967296 = s.pendingCount + 1 := Nat.mod_eq_of_lt (by omega)
    refine ⟨hcap, ?_, ?_, fun hs hu => ?_⟩
    · dsimp only
      omega
    · grind [St.pendings]
    · have := hcov hs hu
      unfold freePlaces at this ⊢
      dsimp only at this ⊢
      rw [hmod]
      show _ ≤ (s.fired : Int) + 0
      have : _ ≤ (s.fired : Int) + 0 := this
      omega

/-- The slot of a task that has ended is free. -/
theorem ended (h : Places c k s) (co : Coro) (out : Outcome) : Places c (k + 1) (s.ended co out) := by
  refine ⟨?_, h.room, ?_, fun hs hu => ?_⟩
  · have := h.cap
    show s.active - 1 ≤ _
    omega
  · have := ended_pendings s co out
    have := h.pendings
    show _ ≤ s.pendingCount
    omega
  · have hcov : freePlaces c s ≤ (s.fired : Int) + k := h.covered hs hu
    unfold freePlaces at hcov
    show (c.concurrency - (s.active - 1)) + (c.queueLimit - s.pendingCount) ≤ (s.fired : Int) + (k + 1)
    omega

/-- A start moves a free place from the slots to the queue, and fires the head. -/
theorem start (hc : 0 < c.concurrency) (hq : c.queueLimit < 4294967296) (h : Places c k s)
    (hst : drainStep c s = some t) :
    Places c k t ∧ ((s.spawners.head?.any fun sp => !sp.fired) = true → Places c (k - 1) t) := by
  have hpend := drainStep_pendings hst
  obtain ⟨hslot, -, a, x, b, h1, h2, rfl⟩ := drainStep_cases hst
  have hlt := hasSlot_lt hslot hc
  have hle := i32_le c.concurrency
  have hroom := h.room
  have hp := h.pendings
  have hmod : (s.pendingCount + 4294967295) % 4294967296 = s.pendingCount - 1 := by omega
  generalize hu : ({ s with
    tasks := a ++ { x with task := .running } :: b
    pendingCount := (s.pendingCount + 4294967295) % 4294967296
    coros := s.coros ++ [⟨x.call, x.key⟩]
    active := s.active + 1
    log := s.log ++ [.started x.call] } : St) = u at hpend ⊢
  have hactive : u.active = s.active + 1 := by rw [← hu]
  have hcount : u.pendingCount = s.pendingCount - 1 := by rw [← hu]; exact hmod
  have hspawners : u.spawners = s.spawners := by rw [← hu]
  have hsealed : u.isSealed = s.isSealed := by rw [← hu]
  obtain ⟨hf1, hf2, hf3⟩ := fireOneSlotWaiter_fired u
  have hfired : u.fired = s.fired := by
    unfold St.fired
    rw [hspawners]
  have hplaces : ∀ k', (u.isSealed = false →
      (∃ sp ∈ (TaskGroup.fireOneSlotWaiter u).spawners, sp.fired = false) →
      freePlaces c s ≤ (TaskGroup.fireOneSlotWaiter u).fired + k') →
      Places c k' (TaskGroup.fireOneSlotWaiter u) := by
    intro k' hcov
    rw [fireOneSlotWaiter_eq] at hpend ⊢
    refine ⟨?_, ?_, ?_, fun hs hun => ?_⟩
    · show u.active ≤ _
      omega
    · show u.pendingCount ≤ _
      omega
    · show _ ≤ u.pendingCount
      omega
    · grind [freePlaces, fireOneSlotWaiter, St.fired]
  refine ⟨hplaces k fun hs hun => ?_, fun hhead => hplaces (k - 1) fun hs hun => ?_⟩
  · have := h.covered (hsealed ▸ hs) (hspawners ▸ hf3 hun)
    omega
  · have := h.covered (hsealed ▸ hs) (hspawners ▸ hf3 hun)
    have := hf2 (by rw [hspawners]; exact hhead)
    omega

/-- The first start of `task_group_drain` passes the place on; the others keep it. -/
theorem drain_relay (hc : 0 < c.concurrency) (hq : c.queueLimit < 4294967296) (h : Places c 1 s)
    (hst : drainStep c s = some t) (hhead : (s.spawners.head?.any fun sp => !sp.fired) = true) :
    Places c 0 (drain c s) := by
  have ht : Places c 0 t := (h.start hc hq hst).2 hhead
  obtain ⟨-, -, a, x, b, h1, -, -⟩ := drainStep_cases hst
  unfold TaskGroup.drain
  rw [h1, List.length_append, List.length_cons, ← Nat.add_assoc, Loop.run_succ_some hst]
  exact Loop.run_induct (fun _ _ hu hp => (hp.start hc hq hu).1) _ t ht

theorem drain_keep (hc : 0 < c.concurrency) (hq : c.queueLimit < 4294967296) (h : Places c 0 s) :
    Places c 0 (drain c s) := drain_induct (fun _ _ hu hp => (hp.start hc hq hu).1) h

end Places

/-! ## Steps -/

/-- A place becomes free only if a fired caller is left over for it, or if it is
passed on: when a task ends, by a pending task that is started and an unfired head;
when a fired caller runs, by the caller itself, unless it throws. -/
def Relayed (c : Cfg) (s : St) : Lbl → Prop
  | .complete call _ _ =>
    Covered c (-1) s ∨
      s.scopeClosed = false ∧ (s.spawners.head?.any fun sp => !sp.fired) = true ∧
        ∀ co ∈ s.coros, co.call = call → ∃ e ∈ s.tasks, e.task.isPending = true ∧ e.key ≠ co.key
  | .runSpawner call =>
    ∀ sp ∈ s.spawners, sp.call = call → sp.fired = true →
      sp.waker.error ≠ none ∨ (hasSlot c s = true ∧ s.scopeClosed = true) → Covered c (-1) s
  | _ => True

instance (c : Cfg) (s : St) : ∀ l, Decidable (Relayed c s l) := by
  intro l
  apply @Lbl.casesOn (fun l => Decidable (Relayed c s l)) l <;> intros <;> dsimp only [Relayed] <;> infer_instance

section Step

variable {c : Cfg} {s t : St} {l : Lbl} (hc : 0 < c.concurrency) (hc' : c.concurrency ≤ 2147483647)
  (hq : 0 < c.queueLimit) (hq' : c.queueLimit < 4294967296)
include hc hc' hq'

theorem complete_places (h : Places c 0 s) {co : Coro} (hm : co ∈ s.coros) (out : Outcome) (d : Bool)
    (hr : Relayed c s (.complete co.call out d)) : Places c 0 (onCoroutineComplete c d s co out) := by
  have hd : Places c 0 (drain c (s.ended co out)) := by
    rcases hr with hcov | ⟨hscope, hhead, hpend⟩
    · have hs : Places c (-1) s := ⟨h.cap, h.room, h.pendings, hcov⟩
      exact (hs.ended co out).drain_keep hc hq'
    -- the slot that has become free goes to a pending task
    · have hslot : hasSlot c (s.ended co out) = true := by
        have := h.cap
        simp only [hasSlot, Bool.or_eq_true, decide_eq_true_eq, i32_of_le hc', St.ended]
        omega
      obtain ⟨e, he, hep, hne⟩ := hpend co hm rfl
      cases hst : drainStep c (s.ended co out) with
      | some u => exact (h.ended co out).drain_relay hc hq' hst hhead
      | none =>
        rcases drainStep_none hst with hno | hno | hno
        · cases hslot.symm.trans hno
        · cases hscope.symm.trans hno
        · have := hasPending_false.1 hno e (mem_settle_of_ne he hne out.task)
          cases hep.symm.trans this
  exact (hd.aside (told_aside c d s co out)).tryComplete d

include hq

/-- A caller that was woken gives its token back. -/
theorem spawns_places {own fresh : Prop} {u : St} {call : Nat} {key : Key} (h : Places c 0 s)
    (hcomp : s.isCompleted = true → s.isSealed = true) (hr : Relayed c s l) (hu : Called s l own u call key)
    (he : Entered c own fresh u call key t) : Places c 0 t := by
  cases hu with
  | spawn =>
    have h' : Places c 0 s.nextCall := h.congr (.refl _) rfl rfl rfl id
    exact Places.entered hc hc' hq hq' (h'.mono (by decide)) he fun _ => h'
  | spawnWithKey key =>
    have h' : Places c 0 (newCall s) := h.congr (.refl _) rfl rfl rfl id
    exact Places.entered hc hc' hq hq' (h'.mono (by decide)) he fun _ => h'
  | resumed sp hm =>
    have hcount := fired_erase hm
    have hsub : (∃ x ∈ s.spawners.erase sp, x.fired = false) → ∃ x ∈ s.spawners, x.fired = false :=
      fun ⟨x, hx, hf⟩ => ⟨x, List.mem_of_mem_erase hx, hf⟩
    -- without the caller one place may be uncovered, if it had the token
    have h1 : Places c 1 { s with spawners := s.spawners.erase sp } := by
      refine ⟨h.cap, h.room, h.pendings, fun hs hu => ?_⟩
      have := h.covered hs (hsub hu)
      show freePlaces c s ≤ (((s.spawners.erase sp).countP fun sp => sp.fired : Nat) : Int) + 1
      split at hcount <;> omega
    have h0 : (sp.fired = true → Covered c (-1) s) →
        Places c 0 { s with spawners := s.spawners.erase sp } := by
      intro hcov
      refine ⟨h.cap, h.room, h.pendings, fun hs hu => ?_⟩
      show freePlaces c s ≤ (((s.spawners.erase sp).countP fun sp => sp.fired : Nat) : Int) + 0
      split at hcount
      · rename_i hf
        have := hcov hf hs (hsub hu)
        omega
      · have := h.covered hs (hsub hu)
        omega
    have hsealed : s.isSealed = true → Places c 0 { s with spawners := s.spawners.erase sp } :=
      fun hs => ⟨h.cap, h.room, h.pendings, fun hno _ => by cases hs.symm.trans hno⟩
    refine Places.entered hc hc' hq hq' h1 he fun hwhy => ?_
    rcases hwhy with herr | hs | hdone | hfull
    · exact h0 fun hf => hr sp hm rfl hf (.inl herr)
    · exact hsealed hs
    · exact hsealed (hcomp hdone)
    · exact h0 fun hf => hr sp hm rfl hf (.inr hfull)

theorem step_places (h : Places c 0 s) (hcomp : s.isCompleted = true → s.isSealed = true)
    (hr : Relayed c s l) (hst : step c s l = some t) : Places c 0 t := by
  cases step_move hst with
  | spawns hu he => exact spawns_places hc hc' hq hq' h hcomp hr hu he
  | cancelSpawner call =>
    refine h.congr (.refl _) rfl rfl ?_ id
    rw [List.map_map]
    refine List.map_congr_left fun sp _ => ?_
    show (if sp.call = call then _ else sp).fired = sp.fired
    split <;> rfl
  | complete co out d hm => exact complete_places hc hc' hq' h hm out d hr
  | aside _ ht => exact h.aside ht.aside
  | again => exact h
  | seals _ d b => exact (h.shut b).tryComplete d
  | late | handler | stopped | registers | closeScope => exact h.congr (.refl _) rfl rfl rfl id

end Step

theorem places_inductive {c : Cfg} (hc : 0 < c.concurrency) (hc' : c.concurrency ≤ 2147483647)
    (hq : 0 < c.queueLimit) (hq' : c.queueLimit < 4294967296) :
    ((lts c).restrict (Relayed c)).Inductive fun s =>
      (s.isCompleted = true → s.isSealed = true) ∧ Places c 0 s := by
  refine ((completed_inductive c).restrict _).and (fun s hi => ?_) (fun s l t hcomp _ h hs => ?_)
  · rw [hi.2]
    exact ⟨Int.natCast_nonneg _, Nat.zero_le _, Nat.le_refl _, fun _ hu => by
      obtain ⟨sp, hsp, -⟩ := hu
      cases hsp⟩
  · exact step_places hc hc' hq hq' h hcomp hs.1 hs.2

/-- **Counterexample.** One slot and one place in the queue; a task runs, one waits,
two callers are suspended. Both tasks end before the first caller, which the first of
them has woken, runs: it takes the slot. The second caller is not woken by this, nor
by the end of the last task. -/
theorem wakeup_lost :
    ∃ s, (lts ⟨1, 1, false⟩).Reachable s ∧ s.isSealed = false ∧
      s.spawners = [⟨3, .int 3, false, .parked⟩] ∧ s.active = 0 ∧ s.pendingCount = 0 := by
  exact exists_run 1 1 false (by decide) (by decide)
    [.spawn, .spawn, .spawn, .spawn, .complete 0 (.result 0) false, .complete 1 (.result 1) false,
      .runSpawner 2, .complete 2 (.result 2) false] (by decide +kernel)

/-- **Back-pressure.** In every relayed run of a group whose limit is an `int32_t`: if
callers of an open group are suspended and none of them was woken, all slots are taken
and the queue is full. -/
theorem suspended_only_when_full (c : Cfg) (hc : 1 ≤ c.concurrency)
    (hc' : c.concurrency ≤ 2147483647) (hq : 1 ≤ c.queueLimit) (s : St)
    (hr : ((lts c).restrict (Relayed c)).Reachable s) (hopen : s.isSealed = false)
    (hsusp : s.spawners ≠ []) (hnone : ∀ sp ∈ s.spawners, sp.fired = false) :
    c.concurrency ≤ s.active ∧ c.queueLimit ≤ s.pendingCount := by
  have hq' : c.queueLimit < 4294967296 := by
    obtain ⟨s₀, ls, ⟨⟨n, q, b, hcons⟩, -⟩, -⟩ := hr
    exact (construct_lt hcons).2
  have h := ((places_inductive hc hc' hq hq').reachable s hr).2
  obtain ⟨sp, hsp⟩ := List.exists_mem_of_ne_nil _ hsusp
  have hcov := h.covered hopen ⟨sp, hsp, hnone sp hsp⟩
  have hfired : s.fired = 0 := List.countP_eq_zero.2 fun x hx => by rw [hnone x hx]; exact nofun
  have hcap := h.cap
  have hroom := h.room
  unfold freePlaces at hcov
  omega

/-- A caller that was woken has taken the place in the queue, and the next one waits
for a full group. -/
theorem suspended_only_when_full_relayed :
    ∃ s : St, s.spawners = [⟨3, .int 3, false, .parked⟩] ∧ 1 ≤ s.active ∧ 1 ≤ s.pendingCount := by
  obtain ⟨s, hr, h1, h2⟩ := exists_restricted_run (Relayed ⟨1, 1, false⟩) 1 1 false (by decide) (by decide)
    [.spawn, .spawn, .spawn, .spawn, .complete 0 (.result 0) false, .runSpawner 2]
    (P := fun s => s.isSealed = false ∧ s.spawners = [⟨3, .int 3, false, .parked⟩]) (by decide +kernel)
  obtain ⟨h3, h4⟩ := suspended_only_when_full ⟨1, 1, false⟩ (by decide) (by decide) (by decide) s hr h1
    (by rw [h2]; exact nofun) (by rw [h2]; decide)
  exact ⟨s, h2, by exact_mod_cast h3, h4⟩

end PhpAsync.L2.TaskGroup
