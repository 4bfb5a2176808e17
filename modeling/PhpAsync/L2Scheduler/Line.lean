import PhpAsync.L2Scheduler.Steps

/-!
# The queue and the statuses

What the queue, the registry and the statuses of the wakers have to do with each other
(`Lined`), and that the operations of foreign code, the cancellations and the shutdown keep
it. Two coroutines have no entry although something about them is going on: the one whose
entry was taken out last, and the one that runs or is finalized.
-/
namespace PhpAsync.L2.Scheduler

open PhpAsync.Core Function
open PhpAsync.L2.Coroutine (Status)

/-- `out`: the coroutine whose entry has been taken out of the queue, and which has not been
executed yet. `busy`: the coroutine that runs or is finalized. -/
structure Lined (s : St) (out busy : Option Nat) : Prop where
  nodup : s.queue.Nodup
  mem : ∀ c, c ∈ s.queue ↔ (s.co c).status.inQueue = true ∧ out ≠ some c
  fresh : ∀ c, s.made ≤ c → (s.co c).status = .noStatus ∧ (s.co c).started = false ∧ c ∉ s.registry
  registry : s.registry.Nodup
  registered : ∀ c ∈ s.registry, (s.co c).started = false → (s.co c).status.inQueue = true ∨ busy = some c
  known : ∀ c, busy = some c → c < s.made
  rests : ∀ c, busy = some c → (s.co c).status = .noStatus ∨ (s.co c).status = .result
  held : ∀ c, busy = some c → s.current = some c ∨ (s.co c).finished = true

section Lined

variable {s t : St} {out busy : Option Nat} {c d : Nat} {x : Choice}

theorem Lined.lt_of_status (h : Lined s out busy) (hc : (s.co c).status ≠ .noStatus) : c < s.made :=
  Nat.lt_of_not_le fun hle => hc (h.fresh c hle).1

theorem Lined.lt_of_started (h : Lined s out busy) (hc : (s.co c).started = true) : c < s.made :=
  Nat.lt_of_not_le fun hle => by rw [(h.fresh c hle).2.1] at hc; cases hc

theorem Lined.lt_of_registered (h : Lined s out busy) (hc : c ∈ s.registry) : c < s.made :=
  Nat.lt_of_not_le fun hle => (h.fresh c hle).2.2 hc

/-- What `Lined` looks at is the same, but for the current coroutine. -/
theorem Lined.moved (h : Lined s out busy)
    (he : (t.co, t.made, t.queue, t.registry) = (s.co, s.made, s.queue, s.registry))
    (hheld : ∀ c, busy = some c → t.current = some c ∨ (t.co c).finished = true) : Lined t out busy := by
  simp only [Prod.mk.injEq] at he
  obtain ⟨hco, hmade, hqueue, hregistry⟩ := he
  exact {
    nodup := hqueue ▸ h.nodup
    mem c := by rw [hqueue, hco]; exact h.mem c
    fresh c := by rw [hmade, hco, hregistry]; exact h.fresh c
    registry := hregistry ▸ h.registry
    registered c := by rw [hregistry, hco]; exact h.registered c
    known c := by rw [hmade]; exact h.known c
    rests c := by rw [hco]; exact h.rests c
    held := hheld }

theorem Lined.of_eq (h : Lined s out busy)
    (he : (t.co, t.made, t.queue, t.registry, t.current) = (s.co, s.made, s.queue, s.registry, s.current)) : Lined t
    out busy := by
  simp only [Prod.mk.injEq] at he
  obtain ⟨hco, hmade, hqueue, hregistry, hcurrent⟩ := he
  refine h.moved (by rw [hco, hmade, hqueue, hregistry]) fun c hc => ?_
  rw [hcurrent, hco]
  exact h.held c hc

/-- The current coroutine may be another one where the one that runs has finished. -/
theorem Lined.ended (h : Lined s out busy) (hf : ∀ c, busy = some c → (s.co c).finished = true)
    (he : (t.co, t.made, t.queue, t.registry) = (s.co, s.made, s.queue, s.registry)) : Lined t out busy :=
  h.moved he fun c hc => .inr (by rw [(Prod.mk.inj he).1]; exact hf c hc)

/-- Nobody runs any more; who did has started. -/
theorem Lined.free (h : Lined s out busy) (hstarted : ∀ c, busy = some c → (s.co c).started = true)
    (he : (t.co, t.made, t.queue, t.registry) = (s.co, s.made, s.queue, s.registry)) : Lined t out none := by
  simp only [Prod.mk.injEq] at he
  obtain ⟨hco, hmade, hqueue, hregistry⟩ := he
  exact {
    nodup := hqueue ▸ h.nodup
    mem c := by rw [hqueue, hco]; exact h.mem c
    fresh c := by rw [hmade, hco, hregistry]; exact h.fresh c
    registry := hregistry ▸ h.registry
    registered c hc hs := by
      rw [hregistry] at hc
      rw [hco] at hs ⊢
      refine .inl ((h.registered c hc hs).resolve_right fun hb => ?_)
      rw [hstarted c hb] at hs
      cases hs
    known := nofun
    rests := nofun
    held := nofun }

/-- A coroutine changes, and stays in the queue or out of it. -/
theorem Lined.setCo (h : Lined s out busy) {y : Co} (hq : y.status.inQueue = (s.co c).status.inQueue)
    (hs : y.started = false → (s.co c).started = false)
    (hn : s.made ≤ c → y.status = .noStatus ∧ y.started = false)
    (hb : busy = some c → (y.status = .noStatus ∨ y.status = .result) ∧ (s.current = some c ∨ y.finished = true)) :
    Lined (s.setCo c y) out busy := by
  refine ⟨h.nodup, fun d => ?_, fun d hd => ?_, h.registry, fun d hd hds => ?_, h.known, fun d hd => ?_, fun d hd => ?_⟩ <;>
    by_cases hdc : d = c
  · subst hdc
    simpa [hq] using h.mem d
  · simpa [update_of_ne hdc] using h.mem d
  · subst hdc
    have hno := h.fresh d hd
    have hyd := hn hd
    simpa [hyd] using hno.2.2
  · simpa [update_of_ne hdc] using h.fresh d hd
  · subst hdc
    simp only [St.setCo_co, update_self] at hds ⊢
    rw [hq]
    exact h.registered d hd (hs hds)
  · simp only [St.setCo_co, update_of_ne hdc] at hds ⊢
    exact h.registered d hd hds
  · subst hdc
    simpa using (hb hd).1
  · simpa [update_of_ne hdc] using h.rests d hd
  · subst hdc
    simpa using (hb hd).2
  · simpa [update_of_ne hdc] using h.held d hd

/-- A change that is none for the queue. -/
theorem Lined.mark (h : Lined s out busy) {y : Co} (hst : y.status = (s.co c).status) (hs : y.started = (s.co c).started)
    (hf : (s.co c).finished = true → y.finished = true) : Lined (s.setCo c y) out busy := by
  refine h.setCo (by rw [hst]) (by rw [hs]; exact id) (fun hc => ?_) fun hb => ?_
  · rw [hst, hs]
    exact ⟨(h.fresh c hc).1, (h.fresh c hc).2.1⟩
  · rw [hst]
    exact ⟨h.rests c hb, (h.held c hb).imp_right hf⟩

/-- A coroutine that has no entry gets one. -/
theorem Lined.push (h : Lined s none busy) (hc : c < s.made) (hn : (s.co c).status.inQueue = false) (hb : busy ≠ some c)
    {q r : List Nat} (hq : q.Perm (c :: s.queue)) (hr : r = s.registry ∨ c ∉ s.registry ∧ r = s.registry ++ [c])
    (rs : List Nat) : Lined { s.setStatus c .queued with queue := q, registry := r, resumed := rs } none busy := by
  have hnot : c ∉ s.queue := fun hm => by rw [((h.mem c).1 hm).1] at hn; cases hn
  have hreg : ∀ d, d ∈ r → d ≠ c → d ∈ s.registry := by grind
  refine ⟨hq.nodup_iff.2 (List.nodup_cons.2 ⟨hnot, h.nodup⟩), fun d => ?_, fun d hd => ?_, ?_, fun d hd hds => ?_,
    h.known, fun d hd => ?_, fun d hd => ?_⟩
  · rw [hq.mem_iff, List.mem_cons]
    by_cases hdc : d = c
    · simp [hdc, Status.inQueue]
    · simpa [hdc] using h.mem d
  · have hdc : d ≠ c := fun he => absurd hc (Nat.not_lt.2 (he ▸ hd))
    simp only [setStatus_co, update_of_ne hdc]
    have hd' := h.fresh d hd
    exact ⟨hd'.1, hd'.2.1, fun hm => hd'.2.2 (hreg d hm hdc)⟩
  · grind [h.registry]
  · by_cases hdc : d = c
    · simp [hdc, Status.inQueue]
    · simp only [setStatus_co, update_of_ne hdc] at hds ⊢
      exact h.registered d (hreg d hd hdc) hds
  · have hdc : d ≠ c := fun he => hb (he ▸ hd)
    simpa [update_of_ne hdc] using h.rests d hd
  · have hdc : d ≠ c := fun he => hb (he ▸ hd)
    simp only [setStatus_co, update_of_ne hdc]
    exact h.held d hd

/-! ## Operations -/

theorem Lined.enqueue (h : Lined s none busy) (hc : c < s.made) (hb : busy ≠ some c) : Lined (enqueue s c) none busy := by
  unfold Scheduler.enqueue
  split
  · exact h
  · grind [h.push]

/-- The coroutine that runs or is finalized is marked, and not queued. -/
theorem Lined.cancel (h : Lined s none busy) (hc : c < s.made) (safely : Bool) : Lined (cancel s c safely) none busy := by
  have hmark : Lined (s.setCo c { s.co c with cancelled := true }) none busy := h.mark rfl rfl id
  unfold Scheduler.cancel
  dsimp only
  split
  · exact h
  rename_i hfin
  split
  · exact hmark
  rename_i hcur
  have hb : busy ≠ some c := by grind [h.held, h.rests]
  split
  · exact h
  split
  · have hq := hmark.enqueue hc hb
    refine hq.setCo ?_ id (fun hle => absurd hc (Nat.not_lt.2 ?_)) fun he => absurd he hb
    · have hin : ∀ u : St, ((Scheduler.enqueue u c).co c).status.inQueue = true := by
        intro u
        unfold Scheduler.enqueue
        split
        · assumption
        · simp [Status.inQueue]
      rw [hin]
      rfl
    · rw [(enqueue_rest _ c).made] at hle
      exact hle
  split
  · exact hmark
  · exact hmark.enqueue hc hb

theorem Lined.resume (h : Lined s none busy) (hc : c < s.made) (hi : (s.co c).status ≠ .ignored)
    (hb : busy = some c → (s.co c).status = .noStatus ∧ s.context = false ∨ s.context = true ∧ s.current = some c)
    (e : Nat) : Lined (resume s c e) none busy := by
  unfold Scheduler.resume
  split
  · exact h.of_eq rfl
  rename_i hno
  split
  · exact h
  rename_i hq
  have hn : (s.co c).status.inQueue = false := by
    cases hst : (s.co c).status with
    | queued => exact absurd hst hq
    | ignored => exact absurd hst hi
    | noStatus | waiting | result => rfl
  split
  · rename_i hshort
    exact h.setCo hn.symm id (fun hle => absurd hc (Nat.not_lt.2 hle)) fun _ => ⟨.inr rfl, .inl hshort.2⟩
  · rename_i hlong
    refine h.push hc hn (fun he => ?_) (List.perm_append_singleton c _) (.inl rfl) _
    rcases hb he with hb | hb
    · exact hno hb
    · exact hlong hb

theorem Lined.create (h : Lined s none busy) : Lined { s with made := s.made + 1 } none busy :=
  ⟨h.nodup, h.mem, fun c hc => h.fresh c (Nat.le_of_succ_le hc), h.registry, h.registered,
    fun c hc => Nat.lt_succ_of_lt (h.known c hc), h.rests, h.held⟩

theorem Lined.spawn (h : Lined s none busy) (front : Bool) : Lined (spawn s front) none busy := by
  obtain ⟨hst, -, hreg⟩ := h.fresh s.made (Nat.le_refl _)
  have hb : busy ≠ some s.made := fun he => absurd (h.known s.made he) (Nat.lt_irrefl _)
  refine h.create.push (c := s.made) (Nat.lt_succ_self _) (by simp [hst, Status.inQueue]) hb ?_ (.inr ⟨hreg, rfl⟩) s.resumed
  cases front with
  | true => exact .refl _
  | false => exact List.perm_append_singleton _ _

/-! ## Cancellation of everybody -/

/-- `P` says whom `f` may be applied to. -/
theorem Lined.foldl {f : St → Nat → St} {P : St → Nat → Prop}
    (hf : ∀ s c, Lined s none busy → P s c → Lined (f s c) none busy) (hP : ∀ s c d, P s d → P (f s c) d) :
    ∀ (cs : List Nat) (s : St), (∀ c ∈ cs, P s c) → Lined s none busy → Lined (cs.foldl f s) none busy
  | [], _, _, h => h
  | c :: cs, s, hcs, h =>
    foldl hf hP cs (f s c) (fun d hd => hP s c d (hcs d (List.mem_cons_of_mem c hd)))
      (hf s c h (hcs c List.mem_cons_self))

theorem enqueue_registry (s : St) (c : Nat) : ∀ d ∈ s.registry, d ∈ (enqueue s c).registry := by
  intro d hd
  unfold enqueue
  split
  · exact hd
  split
  · exact List.mem_append_left _ hd
  · exact hd

theorem cancel_registry (s : St) (c : Nat) (safely : Bool) : ∀ d ∈ s.registry, d ∈ (cancel s c safely).registry := by
  intro d hd
  unfold cancel
  dsimp only
  split
  · exact hd
  split
  · exact hd
  split
  · exact hd
  split
  · exact enqueue_registry _ c d hd
  split
  · exact hd
  · exact enqueue_registry _ c d hd

theorem cancelOne_registry (s : St) (c : Nat) : ∀ d ∈ s.registry, d ∈ (cancelOne s c).registry := by
  intro d hd
  unfold cancelOne
  split
  · exact cancel_registry _ c false d hd
  · exact hd

/-- Who has not started is in the queue, and is to be ignored now. -/
theorem Lined.cancelOne (h : Lined s none busy) (hc : c ∈ s.registry)
    (hb : busy = some c → (s.co c).started = true) : Lined (cancelOne s c) none busy := by
  have hlt := h.lt_of_registered hc
  unfold Scheduler.cancelOne
  split
  · have hclear : Lined (s.setCo c { s.co c with guarded := false }) none busy := h.mark rfl rfl id
    exact hclear.cancel hlt false
  · rename_i hs
    have hbc : busy ≠ some c := fun he => hs (hb he)
    have hq := (h.registered c hc (by simpa using hs)).resolve_right hbc
    exact h.setCo (by rw [hq]; rfl) id (fun hle => absurd hlt (Nat.not_lt.2 hle)) fun he => absurd he hbc

theorem Lined.cancelQueued (h : Lined s none busy) (hb : ∀ c, busy = some c → (s.co c).started = true) (x : Choice) :
    Lined (cancelQueued s x) none busy := by
  have hall := Lined.foldl (f := Scheduler.cancelOne)
    (P := fun s c => c ∈ s.registry ∧ (busy = some c → (s.co c).started = true))
    (fun _ _ h hc => h.cancelOne hc.1 hc.2)
    (fun s c d hd => ⟨cancelOne_registry s c d hd.1, fun he => by rw [(cancelOne_rest s c).started]; exact hd.2 he⟩)
    s.registry { s with context := true } (fun c hc => ⟨hc, hb c⟩) (h.of_eq rfl)
  exact hall.of_eq rfl

theorem Lined.startShutdown (h : Lined s none busy) (hb : ∀ c, busy = some c → (s.co c).started = true) (x : Choice) :
    Lined (startShutdown s x) none busy := by
  unfold Scheduler.startShutdown
  split
  · exact h
  dsimp only
  generalize hu : ({ s with shutdown := true, exit := _, exception := [] } : St) = u
  have hco : u.co = s.co := by
    subst hu
    rfl
  have hsu : Lined u none busy := by
    subst hu
    exact h.of_eq rfl
  have hcancel := hsu.cancelQueued (by rw [hco]; exact hb) x
  split
  · exact hcancel
  · exact hcancel.of_eq rfl

theorem Lined.handle (h : Lined s none none) (x : Choice) : Lined (handle s x) none none := by
  unfold Scheduler.handle
  split
  · exact h
  · have hseen : Lined { s with seen := s.seen ++ s.exception } none none := h.of_eq rfl
    exact hseen.startShutdown (nofun) x

theorem Lined.finallyShutdown (h : Lined s none none) (x : Choice) : Lined (finallyShutdown s x) none none := by
  unfold Scheduler.finallyShutdown
  refine Lined.cancelQueued ?_ ?_ x
  · split <;> exact h.of_eq rfl
  · nofun

theorem Lined.cancelAll (h : Lined s none none) (force : Bool) (x : Choice) : Lined (cancelAll s force x) none none := by
  have hone : ∀ s c, Lined s none none → c < s.made → Lined (cancelDeadlocked force s c) none none := by
    intro s c h hc
    unfold cancelDeadlocked
    split
    · have hclear : Lined (s.setCo c { s.co c with guarded := false }) none none := h.mark rfl rfl id
      exact hclear.cancel hc false
    · exact h.cancel hc false
  unfold Scheduler.cancelAll
  generalize hcs : (if s.exception ≠ [] then _ else _ : List Nat) = cs
  have hsub : ∀ c ∈ cs, c ∈ s.registry := by grind
  have hall := Lined.foldl hone (fun s c d hd => by rw [(cancelDeadlocked_rest force s c).made]; exact hd) cs
    { s with context := true } (fun c hc => h.lt_of_registered (hsub c hc)) (h.of_eq rfl)
  exact hall.of_eq rfl

/-! ## Entries that are executed -/

theorem Lined.pop (h : Lined s none none) {q : List Nat} (hq : s.queue = d :: q) :
    Lined { s with queue := q } (some d) none ∧ (s.co d).status.inQueue = true := by
  have hnd := List.nodup_cons.1 (hq ▸ h.nodup)
  refine ⟨⟨hnd.2, fun c => ?_, h.fresh, h.registry, h.registered, nofun, nofun, nofun⟩, ?_⟩
  · grind [h.mem]
  · exact ((h.mem d).1 (hq ▸ List.mem_cons_self)).1

/-- Nobody is out any more: the coroutine of the entry runs now, or is finalized. -/
theorem Lined.settle (h : Lined s (some d) none) (hd : d < s.made) (hco : ∀ c, c ≠ d → t.co c = s.co c)
    (hst : (t.co d).status = .noStatus ∨ (t.co d).status = .result)
    (hheld : t.current = some d ∨ (t.co d).finished = true) (hmade : t.made = s.made) (hqueue : t.queue = s.queue)
    (hregistry : t.registry = s.registry) : Lined t none (some d) := by
  have hne : ∀ c, t.made ≤ c → c ≠ d := fun c hc he => absurd hd (Nat.not_lt.2 (he ▸ hmade ▸ hc))
  refine ⟨hqueue ▸ h.nodup, fun c => ?_, fun c hc => ?_, hregistry ▸ h.registry, fun c hc hs => ?_,
    fun c hc => ?_, fun c hc => ?_, fun c hc => ?_⟩
  · rw [hqueue, h.mem c]
    by_cases hcd : c = d
    · subst hcd
      rcases hst with hst | hst <;> simp [hst, Status.inQueue]
    · rw [hco c hcd]
      simp [Ne.symm hcd]
  · rw [hco c (hne c hc), hregistry]
    exact h.fresh c (hmade ▸ hc)
  · grind [h.registered]
  · cases hc
    rw [hmade]
    exact hd
  · cases hc
    exact hst
  · cases hc
    exact hheld

/-- A finalization has ended. -/
theorem Lined.release (h : Lined s none (some d)) (held : List Nat) (x : Choice) : Lined (release s d held x) none none := by
  have hmark : Lined (s.setCo d { s.co d with fiber := none }) none (some d) := h.mark rfl rfl id
  refine ⟨hmark.nodup, hmark.mem, fun c hc => ?_, h.registry.erase d, fun c hc hs => ?_, nofun, nofun, nofun⟩
  · obtain ⟨hst, hs, hr⟩ := hmark.fresh c hc
    exact ⟨hst, hs, fun hm => hr (List.mem_of_mem_erase hm)⟩
  · obtain ⟨hne, hm⟩ := (h.registry.mem_erase_iff).1 hc
    exact .inl ((hmark.registered c hm hs).resolve_right fun he => hne (Option.some.inj he).symm)

end Lined

end PhpAsync.L2.Scheduler
