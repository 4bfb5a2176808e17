import Mathlib.Data.List.Nodup
import PhpAsync.L2Registry.Model

/-!
# The counters count

The counters of a scope are guarded by the zombie flag of the coroutine and stay right in
every run. The global count is not: a cancellation in the safe mode takes one from it each
time it is applied, also to a coroutine that is a zombie already.

**Hypotheses (`Once`, about the state before the step).** A zombie is not cancelled in the
safe mode again; a coroutine whose registration failed is not cancelled while its entry is in
the queue, since its end would take it out of the count it never entered; and a hook before
the enqueueing that cancels the coroutine also keeps it and fails, since otherwise it is
queued twice, or destroyed while its entry is in the queue.

**Results.**
* `zombie_counted_twice`: the counterexample.
* `counters_count`: the scopes in every run; the global count under the hypotheses.
-/
namespace PhpAsync.L2.Registry

open PhpAsync.Core
open Function (update update_eq_self update_of_ne update_self)
open PhpAsync.L2.Coroutine (Status)

/-! ## Counting -/

/-- One member changes: the count changes by what it makes of that member. -/
theorem countP_change {l : List Nat} {c : Nat} {p q : Nat → Bool} (hpq : ∀ d, d ≠ c → p d = q d) (hnd : l.Nodup)
    (hc : c ∈ l) : l.countP p + (q c).toNat = l.countP q + (p c).toNat := by
  have hperm := List.perm_cons_erase hc
  have hnot := (List.nodup_cons.1 (hperm.nodup_iff.1 hnd)).1
  have hrest : (l.erase c).countP p = (l.erase c).countP q :=
    List.countP_congr fun d hd => by rw [hpq d fun hdc => hnot (hdc ▸ hd)]
  rw [hperm.countP_eq p, hperm.countP_eq q, List.countP_cons, List.countP_cons, hrest]
  cases p c <;> cases q c <;> simp

/-- A coroutine that is not in the list changes. -/
theorem countP_other {l : List Nat} {c : Nat} {co co' : Nat → Co} (p : Co → Bool) (hco : ∀ d, d ≠ c → co' d = co d)
    (hc : c ∉ l) : l.countP (fun d => p (co' d)) = l.countP fun d => p (co d) :=
  List.countP_congr fun d hd => by rw [hco d fun hdc => hc (hdc ▸ hd)]

/-! ## Scopes -/

/-- The vector and the counters of the scope `i`: who is in the vector is there once and
knows it, and the counters count. -/
structure Exact (co : Nat → Co) (i : Nat) (x : Scope) : Prop where
  nodup : x.coroutines.Nodup
  mem : ∀ c, c ∈ x.coroutines ↔ (co c).scope = some i
  active : x.active = x.coroutines.countP fun c => !(co c).zombie
  zombies : x.zombies = x.coroutines.countP fun c => (co c).zombie

structure Scoped (s : St) : Prop where
  exact : ∀ i, Exact s.co i (s.scopes i)
  made : ∀ c, (s.co c).scope.isSome = true → c < s.made
  known : ∀ c, c ∈ s.queue ∨ c ∈ s.registry → c < s.made

variable {y : Co}

section Scopes

variable {s : St} {c i : Nat} {co co' : Nat → Co} {x : Scope}

theorem Exact.congr (h : Exact co i x) (hs : ∀ c, (co' c).scope = some i ↔ (co c).scope = some i)
    (hz : ∀ c ∈ x.coroutines, (co' c).zombie = (co c).zombie) : Exact co' i x where
  nodup := h.nodup
  mem c := (h.mem c).trans (hs c).symm
  active := h.active.trans (List.countP_congr fun c hc => by simp [hz c hc])
  zombies := h.zombies.trans (List.countP_congr fun c hc => by simp [hz c hc])

/-- A coroutine in another scope, or in none, may change. -/
theorem Exact.other (h : Exact co i x) (hc : (co c).scope ≠ some i) (hy : y.scope ≠ some i) :
    Exact (update co c y) i x := by
  refine h.congr (fun d => ?_) fun d hd => ?_
  · grind
  · grind [h.mem]

theorem Scoped.setCo (h : Scoped s) (hs : y.scope = (s.co c).scope) (hz : y.zombie = (s.co c).zombie) :
    Scoped (s.setCo c y) := by
  have hsame : ∀ d, (update s.co c y d).scope = (s.co d).scope ∧
      (update s.co c y d).zombie = (s.co d).zombie := by
    intro d
    by_cases hd : d = c
    · subst hd
      simpa using ⟨hs, hz⟩
    · simp [update_of_ne hd]
  refine ⟨fun i => (h.exact i).congr (fun d => by rw [St.setCo_co, (hsame d).1]) fun d _ => (hsame d).2, fun d hd => ?_,
    h.known⟩
  rw [St.setCo_co, (hsame d).1] at hd
  exact h.made d hd

theorem Scoped.fresh (h : Scoped s) : (s.co s.made).scope = none := by
  cases hs : (s.co s.made).scope with
  | none => rfl
  | some i => exact absurd (h.made s.made (by rw [hs]; rfl)) (Nat.lt_irrefl _)

theorem newCoroutine_co (s : St) (i : Nat) (kept : Bool) : (newCoroutine s i kept).co =
    update s.co s.made ⟨some i, .noStatus, false, false, false, false, false, kept⟩ := by
  simp [newCoroutine, addCoroutine]

theorem Scoped.newCoroutine (h : Scoped s) (i : Nat) (kept : Bool) : Scoped (newCoroutine s i kept) := by
  have hfresh := h.fresh
  have hother : ∀ d, d ≠ s.made → (Registry.newCoroutine s i kept).co d = s.co d := fun d hd => by
    rw [newCoroutine_co, update_of_ne hd]
  refine ⟨fun j => ?_, fun d hd => ?_, fun d hd => Nat.lt_succ_of_lt (h.known d hd)⟩
  · by_cases hj : j = i
    · subst hj
      have hnot : s.made ∉ (s.scopes j).coroutines := by simp [(h.exact j).mem, hfresh]
      have hscope : (Registry.newCoroutine s j kept).scopes j = { s.scopes j with
          coroutines := (s.scopes j).coroutines ++ [s.made], active := (s.scopes j).active + 1 } := by
        simp [Registry.newCoroutine, addCoroutine]
      rw [hscope]
      refine ⟨?_, fun d => ?_, ?_, ?_⟩
      · exact List.nodup_append.2 ⟨(h.exact j).nodup, List.nodup_singleton _, fun a ha b hb hab =>
          hnot (List.mem_singleton.1 hb ▸ hab ▸ ha)⟩
      · by_cases hd : d = s.made
        · simp [hd, newCoroutine_co]
        · simpa [hother d hd, hd] using (h.exact j).mem d
      · rw [List.countP_append, countP_other (!·.zombie) hother hnot, ← (h.exact j).active]
        simp [newCoroutine_co]
      · rw [List.countP_append, countP_other (·.zombie) hother hnot, ← (h.exact j).zombies]
        simp [newCoroutine_co]
    · have hscope : (Registry.newCoroutine s i kept).scopes j = s.scopes j := by
        simp [Registry.newCoroutine, addCoroutine, update_of_ne hj]
      rw [hscope, newCoroutine_co]
      exact (h.exact j).other (by simp [hfresh]) fun hij => hj (Option.some.inj hij).symm
  · by_cases hds : d = s.made
    · rw [hds]
      exact Nat.lt_succ_self _
    · rw [hother d hds] at hd
      exact Nat.lt_succ_of_lt (h.made d hd)

theorem removeCoroutine_co (s : St) (i c : Nat) : (removeCoroutine s i c).co = s.co := by
  unfold removeCoroutine
  dsimp only
  split <;> rfl

/-- A member leaves the vector, and the counter of its kind goes down. -/
theorem Exact.remove (h : Exact s.co i (s.scopes i)) (hs : (s.co c).scope = some i) (hy : y.scope = none) :
    Exact (update s.co c y) i ((removeCoroutine s i c).scopes i) ∧
      ∀ j, j ≠ i → (removeCoroutine s i c).scopes j = s.scopes j := by
  have hmem := (h.mem c).2 hs
  have hperm := swapRemove_perm (List.getElem?_idxOf hmem)
  have hnd := List.nodup_cons.1 (hperm.nodup_iff.1 h.nodup)
  have hactive := h.active
  have hzombies := h.zombies
  have hother : ∀ d, d ≠ c → update s.co c y d = s.co d := fun d hd => update_of_ne hd ..
  rw [hperm.countP_eq, List.countP_cons] at hactive hzombies
  unfold removeCoroutine
  rw [if_pos hmem]
  refine ⟨?_, fun j hj => by simp [update_of_ne hj]⟩
  rw [St.setScope_scopes, update_self]
  generalize swapRemove (s.scopes i).coroutines ((s.scopes i).coroutines.idxOf c) = v at hperm hnd hactive hzombies ⊢
  have hvec : ∀ d, d ∈ v ↔ (update s.co c y d).scope = some i := fun d => by
    by_cases hd : d = c
    · subst hd
      simp [hnd.1, hy]
    · have := h.mem d
      rw [hperm.mem_iff, List.mem_cons, or_iff_right hd] at this
      simpa [update_of_ne hd] using this
  cases hz : (s.co c).zombie with
  | true =>
    simp only [hz, Bool.not_true, Bool.false_eq_true, if_false, if_true, Nat.add_zero] at hactive hzombies ⊢
    refine ⟨hnd.2, hvec, hactive.trans (countP_other (!·.zombie) hother hnd.1).symm, ?_⟩
    exact (Nat.sub_eq_of_eq_add hzombies).trans (countP_other (·.zombie) hother hnd.1).symm
  | false =>
    simp only [hz, Bool.not_false, Bool.false_eq_true, if_false, if_true, Nat.add_zero] at hactive hzombies
    rw [if_pos ⟨rfl, by omega⟩]
    refine ⟨hnd.2, hvec, ?_, hzombies.trans (countP_other (·.zombie) hother hnd.1).symm⟩
    exact (Nat.sub_eq_of_eq_add hactive).trans (countP_other (!·.zombie) hother hnd.1).symm

theorem leaveScope_frame (s : St) (c : Nat) : (leaveScope s c).registry = s.registry ∧
    (leaveScope s c).count = s.count ∧ (leaveScope s c).queue = s.queue ∧ (leaveScope s c).made = s.made := by
  unfold leaveScope removeCoroutine
  split
  · dsimp only
    split <;> exact ⟨rfl, rfl, rfl, rfl⟩
  · exact ⟨rfl, rfl, rfl, rfl⟩

theorem leaveScope_co (s : St) (c : Nat) :
    (leaveScope s c).co = update s.co c { s.co c with scope := none } := by
  unfold leaveScope
  split
  · rw [St.setCo_co, removeCoroutine_co]
  · rename_i hs
    rw [← hs]
    exact (update_eq_self c s.co).symm

theorem Scoped.leaveScope (h : Scoped s) (c : Nat) : Scoped (leaveScope s c) := by
  obtain ⟨hreg, -, hqueue, hmade⟩ := leaveScope_frame s c
  refine ⟨fun j => ?_, fun d hd => ?_, by rw [hreg, hqueue, hmade]; exact h.known⟩
  · rw [leaveScope_co]
    unfold Registry.leaveScope
    split
    · rename_i i hs
      obtain ⟨hi, hother⟩ := (h.exact i).remove hs (y := { s.co c with scope := none }) rfl
      by_cases hj : j = i
      · exact hj ▸ hi
      · rw [St.setCo_scopes, hother j hj]
        exact (h.exact j).other (by simp [hs, Ne.symm hj]) (by simp)
    · rename_i hs
      exact (h.exact j).other (by simp [hs]) (by simp)
  · rw [hmade]
    rw [leaveScope_co] at hd
    by_cases hdc : d = c
    · simp [hdc] at hd
    · exact h.made d (by simpa [update_of_ne hdc] using hd)

theorem Scoped.markZombie (h : Scoped s) (c : Nat) : Scoped (markZombie s c) := by
  unfold Registry.markZombie
  split
  · exact h
  rename_i hz
  have hscope : ∀ d, (update s.co c { s.co c with zombie := true } d).scope = (s.co d).scope := by grind
  have hmade : ∀ d, (update s.co c { s.co c with zombie := true } d).scope.isSome = true → d < s.made :=
    fun d hd => h.made d (hscope d ▸ hd)
  cases hs : (s.co c).scope with
  | none => exact ⟨fun j => (h.exact j).other (by simp [hs]) (by simp [hs]), hmade, h.known⟩
  | some i =>
    have hmem := ((h.exact i).mem c).2 hs
    have hcount := fun (p : Bool → Bool) => countP_change (p := fun d =>
      p (update s.co c { s.co c with zombie := true } d).zombie) (q := fun d => p (s.co d).zombie) (c := c)
      (fun d hd => by rw [update_of_ne hd]) (h.exact i).nodup hmem
    have hactive := hcount (!·)
    have hzombies := hcount id
    simp only [hz, update_self, id, ← (h.exact i).active, ← (h.exact i).zombies, Bool.not_false,
      Bool.not_true, Bool.toNat_true, Bool.toNat_false] at hactive hzombies
    dsimp only
    rw [if_pos (by omega)]
    refine ⟨fun j => ?_, hmade, h.known⟩
    simp only [St.setScope_scopes, St.setScope_co, St.setCo_co]
    by_cases hj : j = i
    · subst hj
      rw [update_self]
      exact ⟨(h.exact j).nodup, fun d => by rw [hscope]; exact (h.exact j).mem d, by dsimp only; omega, hzombies.symm⟩
    · rw [update_of_ne hj]
      have hne : (s.co c).scope ≠ some j := by simp [hs, Ne.symm hj]
      exact (h.exact j).other hne hne

theorem Scoped.dispose (h : Scoped s) (c : Nat) : Scoped (dispose s c) := by
  unfold Registry.dispose
  split
  · exact h
  · exact (h.leaveScope c).setCo rfl rfl

theorem Scoped.finalize (h : Scoped s) (c : Nat) : Scoped (finalize s c) := by
  have hf : Scoped (s.setCo c { s.co c with finished := true }) := h.setCo rfl rfl
  have ht := hf.leaveScope c
  generalize hu : Registry.leaveScope (s.setCo c { s.co c with finished := true }) c = u at ht
  have hd : Scoped (u.setCo c { u.co c with status := .noStatus }) := ht.setCo rfl rfl
  unfold Registry.finalize
  rw [hu]
  exact ⟨hd.exact, hd.made, fun d h' => hd.known d (h'.imp_right List.mem_of_mem_erase)⟩

theorem perm_push (front : Bool) (q : List Nat) (c : Nat) :
    (if front then c :: q else q ++ [c]).Perm (c :: q) := by
  cases front with
  | true => exact List.Perm.refl _
  | false => exact List.perm_append_singleton c q

theorem Scoped.push (h : Scoped s) (front : Bool) (hc : c < s.made) : Scoped (push s front c) := by
  refine Scoped.setCo (s := { s with queue := if front then c :: s.queue else s.queue ++ [c] })
    ⟨h.exact, h.made, fun d hd => ?_⟩ rfl rfl
  rcases hd with hd | hd
  · rcases List.mem_cons.1 ((perm_push front s.queue c).mem_iff.1 hd) with rfl | hd
    · exact hc
    · exact h.known d (.inl hd)
  · exact h.known d (.inr hd)

theorem Scoped.register (h : Scoped s) (hc : c < s.made) : Scoped (register s c) := by
  refine ⟨h.exact, h.made, fun d hd => ?_⟩
  rcases hd with hd | hd
  · exact h.known d (.inl hd)
  · rcases List.mem_append.1 hd with hd | hd
    · exact h.known d (.inr hd)
    · exact List.mem_singleton.1 hd ▸ hc

theorem Scoped.enqueue (h : Scoped s) (hc : c < s.made) : Scoped (enqueue s c) := by
  have hp := h.push false hc
  unfold Registry.enqueue
  split
  · exact h
  split
  · split
    · exact hp.setCo rfl rfl
    · exact hp.register hc
  · exact hp

theorem Scoped.cancelUnstarted (h : Scoped s) (hm : c < s.made) : Scoped (cancelUnstarted s c) := by
  have hc : Scoped (s.setCo c { s.co c with cancelled := true }) := h.setCo rfl rfl
  exact (hc.enqueue hm).setCo rfl rfl

theorem Scoped.cancel (h : Scoped s) (hm : c < s.made) (safely : Bool) : Scoped (cancel s c safely) := by
  have hc : Scoped (s.setCo c { s.co c with cancelled := true }) := h.setCo rfl rfl
  unfold Registry.cancel
  dsimp only
  split
  · exact h
  split
  · exact hc
  split
  · exact h
  split
  · exact h.cancelUnstarted hm
  split
  · have hz := hc.markZombie c
    exact ⟨hz.exact, hz.made, hz.known⟩
  · exact hc

theorem Scoped.runHook (h : Scoped s) (hm : c < s.made) (k : Hook) : Scoped (runHook s c k) := by
  unfold Registry.runHook
  split
  · exact h.cancelUnstarted hm
  · exact h

theorem cancelUnstarted_frame (s : St) (c : Nat) : (cancelUnstarted s c).made = s.made ∧
    (cancelUnstarted s c).scopes = s.scopes ∧ (cancelUnstarted s c).co =
      update s.co c { s.co c with cancelled := true, status := .ignored } := by
  unfold cancelUnstarted enqueue
  dsimp only
  split
  · simp
  split
  · split <;> simp [register]
  · simp

theorem runHook_made (s : St) (c : Nat) (k : Hook) : (runHook s c k).made = s.made := by
  unfold runHook
  split
  · exact (cancelUnstarted_frame s c).1
  · rfl

theorem Scoped.spawn (h : Scoped s) (i : Nat) (front : Bool) (x : Exit) : Scoped (spawn s i front x) := by
  have hnew : ∀ kept, Scoped (Registry.newCoroutine s i kept) := h.newCoroutine i
  have hm : ∀ kept, s.made < (Registry.newCoroutine s i kept).made := fun _ => Nat.lt_succ_self _
  have hhook : ∀ k : Hook, Scoped (Registry.runHook (Registry.newCoroutine s i k.keeps) s.made k) := fun k =>
    (hnew k.keeps).runHook (hm _) k
  have hreg : ∀ kept, Scoped (Registry.register (Registry.push (Registry.newCoroutine s i kept) front s.made) s.made) :=
    fun kept => ((hnew kept).push front (hm _)).register (hm kept)
  unfold Registry.spawn
  split
  · exact h
  cases x with
  | refused => exact h
  | beforeHook k => exact (hhook k).dispose s.made
  | queueFull k =>
    refine Scoped.dispose ?_ s.made
    exact (hhook k).setCo rfl rfl
  | registryFull k => exact ((hhook k).push front (by rw [runHook_made]; exact hm _)).setCo rfl rfl
  | afterHook k => exact ((hreg k.keeps).runHook (hm k.keeps) k).setCo rfl rfl
  | spawned => exact hreg false

theorem Scoped.step {t : St} {l : Lbl} (h : Scoped s) (hst : step s l = some t) : Scoped t := by
  cases l with
  | spawn i front x =>
    cases hst
    exact h.spawn i front x
  | next =>
    simp only [Registry.step] at hst
    split at hst
    · cases hst
    · rename_i c q hq
      have hpop : Scoped { s with queue := q } :=
        ⟨h.exact, h.made, fun d hd => h.known d (hd.imp_left (hq ▸ List.mem_cons_of_mem c ·))⟩
      split at hst <;> cases hst
      · unfold executeIgnored
        split
        · exact (hpop.finalize c).dispose c
        · exact hpop.dispose c
      · exact hpop.setCo rfl rfl
  | finish c =>
    obtain ⟨-, ⟨⟩⟩ := Option.ite_none_right_eq_some.1 hst
    exact h.finalize c
  | cancel c safely =>
    obtain ⟨hc, ⟨⟩⟩ := Option.ite_none_right_eq_some.1 hst
    exact h.cancel (h.made c hc) safely
  | protect c on =>
    obtain ⟨-, ⟨⟩⟩ := Option.ite_none_right_eq_some.1 hst
    exact h.setCo rfl rfl
  | switch c =>
    cases hst
    exact ⟨h.exact, h.made, h.known⟩
  | close i =>
    cases hst
    refine ⟨fun j => ?_, h.made, h.known⟩
    by_cases hj : j = i
    · subst hj
      have hx := h.exact j
      simp only [St.setScope_scopes, update_self]
      exact ⟨hx.nodup, hx.mem, hx.active, hx.zombies⟩
    · simp only [St.setScope_scopes, update_of_ne hj]
      exact h.exact j

end Scopes

theorem scoped_inductive : lts.Inductive Scoped where
  init s hs := by
    rw [show s = start from hs]
    exact ⟨fun i => ⟨List.nodup_nil, fun c => by simp [start], rfl, rfl⟩, fun c hc => (nomatch hc),
      fun c hc => hc.elim (absurd · List.not_mem_nil) (absurd · List.not_mem_nil)⟩
  step s l t h hst := h.step hst

/-! ## The registry -/

theorem inQueue_iff {st : Status} : st.inQueue = true ↔ st = .queued ∨ st = .ignored := by
  cases st <;> decide

/-- A hook before the enqueueing that cancels the coroutine keeps it, and fails. -/
def Exit.Sound : Exit → Prop
  | .beforeHook h => h.cancels = true → h.keeps = true
  | .queueFull h | .registryFull h => h.cancels = false
  | .refused | .afterHook _ | .spawned => True

instance : ∀ x : Exit, Decidable x.Sound
  | .beforeHook _ => inferInstanceAs (Decidable (_ → _))
  | .queueFull _ | .registryFull _ => inferInstanceAs (Decidable (_ = _))
  | .refused | .afterHook _ | .spawned => inferInstanceAs (Decidable True)

def Once (s : St) : Lbl → Prop
  | .spawn _ _ x => x.Sound
  | .cancel c safely =>
    (safely = true → (s.co c).zombie = false) ∧ ((s.co c).status.inQueue = true → c ∈ s.registry)
  | _ => True

instance (s : St) : ∀ l, Decidable (Once s l)
  | .spawn _ _ x => inferInstanceAs (Decidable x.Sound)
  | .cancel _ _ => inferInstanceAs (Decidable (_ ∧ _))
  | .next | .finish _ | .protect _ _ | .switch _ | .close _ => inferInstanceAs (Decidable True)

/-- The global count counts, and who will be taken out of it is in it. -/
structure Balanced (s : St) : Prop where
  nodup : s.registry.Nodup
  count : s.count = s.registry.countP fun c => !(s.co c).zombie
  made : ∀ c, s.made ≤ c → c ∉ s.registry ∧ c ∉ s.queue
  once : s.queue.Nodup
  queued : ∀ c ∈ s.queue, (s.co c).status.inQueue = true ∧ (s.co c).started = false
  registered : ∀ c ∈ s.queue, (s.co c).status = .queued ∨ (s.co c).cancelled = true → c ∈ s.registry
  started : ∀ c, (s.co c).started = true → (s.co c).finished = false → c ∈ s.registry
  zombie : ∀ c, (s.co c).zombie = true → (s.co c).started = true

section Registered

variable {s t : St} {c : Nat}

theorem Balanced.not_queued (h : Balanced s) (hs : (s.co c).started = true) : c ∉ s.queue := by
  intro hc
  have := (h.queued c hc).2
  simp [hs] at this

theorem Balanced.lt_made (h : Balanced s) (hc : c ∈ s.registry ∨ c ∈ s.queue) : c < s.made :=
  Nat.lt_of_not_le fun hle => hc.elim (h.made c hle).1 (h.made c hle).2

/-- Scopes and protection do not matter. -/
theorem Balanced.congr (h : Balanced s) (hr : t.registry = s.registry) (hn : t.count = s.count)
    (hq : t.queue = s.queue) (hm : s.made ≤ t.made)
    (hco : ∀ d, (t.co d).status = (s.co d).status ∧ (t.co d).started = (s.co d).started ∧
      (t.co d).finished = (s.co d).finished ∧ (t.co d).cancelled = (s.co d).cancelled ∧
      (t.co d).zombie = (s.co d).zombie) : Balanced t where
  nodup := hr ▸ h.nodup
  count := by simp only [hn, hr, h.count, hco]
  made d hd := by
    rw [hr, hq]
    exact h.made d (Nat.le_trans hm hd)
  once := hq ▸ h.once
  queued := by simpa only [hq, hco] using h.queued
  registered := by simpa only [hq, hr, hco] using h.registered
  started := by simpa only [hr, hco] using h.started
  zombie := by simpa only [hco] using h.zombie

/-- One coroutine changes; the others keep their entries and their keys. -/
theorem Balanced.change (h : Balanced s) (hco : ∀ d, d ≠ c → t.co d = s.co d)
    (hreg : ∀ d, d ≠ c → (d ∈ t.registry ↔ d ∈ s.registry)) (hqueue : ∀ d, d ≠ c → (d ∈ t.queue ↔ d ∈ s.queue))
    (hnd : t.registry.Nodup) (honce : t.queue.Nodup) (hcount : t.count = t.registry.countP fun d => !(t.co d).zombie)
    (hmade : s.made ≤ t.made) (hm : c ∈ t.registry ∨ c ∈ t.queue → c < t.made)
    (hq : c ∈ t.queue → (t.co c).status.inQueue = true ∧ (t.co c).started = false ∧
      ((t.co c).status = .queued ∨ (t.co c).cancelled = true → c ∈ t.registry))
    (hs : (t.co c).started = true → (t.co c).finished = false → c ∈ t.registry)
    (hz : (t.co c).zombie = true → (t.co c).started = true) : Balanced t := by
  have hcase : ∀ {P : Nat → Prop}, P c → (∀ d, d ≠ c → P d) → ∀ d, P d := fun hc hne d =>
    if hd : d = c then hd ▸ hc else hne d hd
  refine ⟨hnd, hcount, hcase (fun hle => not_or.1 fun h' => Nat.not_lt.2 hle (hm h')) fun d hd hle => ?_, honce,
    hcase (fun h' => ⟨(hq h').1, (hq h').2.1⟩) fun d hd => ?_, hcase (fun h' => (hq h').2.2) fun d hd => ?_,
    hcase hs fun d hd => ?_, hcase hz fun d hd => ?_⟩
  · rw [hreg d hd, hqueue d hd]
    exact h.made d (Nat.le_trans hmade hle)
  · rw [hqueue d hd, hco d hd]
    exact h.queued d
  · rw [hqueue d hd, hco d hd, hreg d hd]
    exact h.registered d
  · rw [hco d hd, hreg d hd]
    exact h.started d
  · rw [hco d hd]
    exact h.zombie d

/-- A coroutine may change its status and be cancelled, as long as its entry in the queue
agrees with it. -/
theorem Balanced.setCo (h : Balanced s)
    (hq : c ∈ s.queue → y.status.inQueue = true ∧ (y.status = .queued ∨ y.cancelled = true → c ∈ s.registry))
    (hs : y.started = (s.co c).started) (hf : y.finished = (s.co c).finished) (hz : y.zombie = (s.co c).zombie) :
    Balanced (s.setCo c y) := by
  have hzombie : ∀ d, (update s.co c y d).zombie = (s.co d).zombie := by grind
  refine h.change (fun d hd => update_of_ne hd ..) (fun _ _ => Iff.rfl) (fun _ _ => Iff.rfl) h.nodup h.once ?_
    (Nat.le_refl _) h.lt_made ?_ ?_ ?_ <;>
    simp only [St.setCo_co, update_self, St.setCo_count, St.setCo_registry, hzombie, hs, hf, hz]
  · exact h.count
  · exact fun hc => ⟨(hq hc).1, (h.queued c hc).2, (hq hc).2⟩
  · exact h.started c
  · exact h.zombie c

/-- One more key, for a coroutine that is no zombie. -/
theorem Balanced.register (h : Balanced s) (hm : c < s.made) (hr : c ∉ s.registry)
    (hz : (s.co c).zombie = false) : Balanced (register s c) := by
  have hself : c ∈ s.registry ++ [c] := by simp
  refine h.change (fun _ _ => rfl) (fun d hd => by simp [Registry.register, hd]) (fun _ _ => Iff.rfl) ?_ h.once ?_
    (Nat.le_refl _) (fun _ => hm) (fun hq => ⟨(h.queued c hq).1, (h.queued c hq).2, fun _ => hself⟩) (fun _ _ => hself)
    (h.zombie c)
  · exact List.nodup_append.2 ⟨h.nodup, List.nodup_singleton _, fun a ha b hb hab =>
      hr (List.mem_singleton.1 hb ▸ hab ▸ ha)⟩
  · simp [Registry.register, List.countP_append, hz, h.count]

/-- An entry for a coroutine that has not started. One that is not ignored, or is
cancelled, must be registered. -/
theorem Balanced.push (h : Balanced s) (hm : c < s.made) (hq : c ∉ s.queue) (hs : (s.co c).started = false)
    (hst : y.status.inQueue = true) (hreg : y.status = .queued ∨ y.cancelled = true → c ∈ s.registry)
    (hys : y.started = false) (hf : y.finished = (s.co c).finished) (hz : y.zombie = (s.co c).zombie) {q : List Nat}
    (hperm : q.Perm (c :: s.queue)) : Balanced ({ s with queue := q }.setCo c y) := by
  have hset := h.setCo (c := c) (y := y) (fun hc => absurd hc hq) (hys.trans hs.symm) hf hz
  refine hset.change (c := c) (fun _ _ => rfl) (fun _ _ => Iff.rfl) (fun d hd => by simp [hperm.mem_iff, hd]) hset.nodup
    (hperm.nodup_iff.2 (List.nodup_cons.2 ⟨hq, h.once⟩)) hset.count (Nat.le_refl _) (fun _ => hm) (fun _ => ?_)
    (hset.started c) (hset.zombie c)
  simpa using ⟨hst, hys, hreg⟩

/-- The first entry is taken. -/
theorem Balanced.pop (h : Balanced s) {q : List Nat} (hq : s.queue = c :: q) :
    Balanced { s with queue := q } ∧ c ∉ q := by
  have hnd := List.nodup_cons.1 (hq ▸ h.once)
  refine ⟨h.change (c := c) (fun _ _ => rfl) (fun _ _ => Iff.rfl) (fun d hd => ?_) h.nodup hnd.2 h.count (Nat.le_refl _)
    (fun _ => h.lt_made (.inr (by simp [hq]))) (fun hc => absurd hc hnd.1) (h.started c) (h.zombie c), hnd.1⟩
  simp [hq, hd]

theorem Balanced.leaveScope (h : Balanced s) (c : Nat) : Balanced (leaveScope s c) := by
  obtain ⟨hr, hn, hq, hm⟩ := leaveScope_frame s c
  refine h.congr hr hn hq (Nat.le_of_eq hm.symm) fun d => ?_
  rw [leaveScope_co]
  by_cases hd : d = c
  · subst hd
    simp
  · simp [update_of_ne hd]

theorem Balanced.dispose (h : Balanced s) (hq : c ∉ s.queue) : Balanced (dispose s c) := by
  unfold Registry.dispose
  split
  · exact h
  · exact (h.leaveScope c).setCo (fun hc => absurd ((leaveScope_frame s c).2.2.1 ▸ hc) hq) rfl rfl rfl

theorem Balanced.unregister (h : Balanced s) (hr : c ∈ s.registry) (hq : c ∉ s.queue)
    (hreg : t.registry = s.registry.erase c) (hqueue : t.queue = s.queue) (hmade : t.made = s.made)
    (hcount : t.count = if (s.co c).zombie then s.count else s.count - 1)
    (hother : ∀ d, d ≠ c → t.co d = s.co d) (hf : (t.co c).finished = true)
    (hz : (t.co c).zombie = true → (t.co c).started = true) : Balanced t := by
  have hperm := List.perm_cons_erase hr
  have hnd := List.nodup_cons.1 (hperm.nodup_iff.1 h.nodup)
  refine h.change hother (fun d hd => ?_) (fun _ _ => hqueue ▸ Iff.rfl) (hreg ▸ hnd.2) (hqueue ▸ h.once) ?_
    (Nat.le_of_eq hmade.symm) (fun _ => hmade ▸ h.lt_made (.inl hr)) (fun hc => absurd (hqueue ▸ hc) hq)
    (fun _ hfin => by simp [hf] at hfin) hz
  · rw [hreg, List.mem_erase_of_ne hd]
  · have hall := h.count
    rw [hperm.countP_eq, List.countP_cons] at hall
    rw [hcount, hreg, countP_other (!·.zombie) hother hnd.1]
    cases hzc : (s.co c).zombie <;> simp [hzc] at hall ⊢ <;> omega

theorem finalize_queue (s : St) (c : Nat) : (finalize s c).queue = s.queue :=
  (leaveScope_frame (s.setCo c { s.co c with finished := true }) c).2.2.1

/-- The end of a registered coroutine. -/
theorem Balanced.finalize (h : Balanced s) (hr : c ∈ s.registry) (hq : c ∉ s.queue) : Balanced (finalize s c) := by
  obtain ⟨hreg, hcount, hqueue, hmade⟩ := leaveScope_frame (s.setCo c { s.co c with finished := true }) c
  have hco := leaveScope_co (s.setCo c { s.co c with finished := true }) c
  unfold Registry.finalize
  generalize Registry.leaveScope (s.setCo c { s.co c with finished := true }) c = u at hreg hcount hqueue hco hmade
  refine h.unregister hr hq (congrArg (List.erase · c) hreg) hqueue hmade ?_ (fun d hd => ?_) ?_ fun hz => ?_
  · simp only [hcount, St.setCo_count]
  · simp [hco, update_of_ne hd]
  · simp [hco]
  · simp only [St.setCo_co, update_self, hco] at hz ⊢
    exact h.zombie c hz

/-- A registered coroutine that has no entry starts. -/
theorem Balanced.begin (h : Balanced s) (hr : c ∈ s.registry) (hq : c ∉ s.queue) (hs : y.started = true)
    (hz : y.zombie = (s.co c).zombie) : Balanced (s.setCo c y) := by
  have hzombie : ∀ d, (update s.co c y d).zombie = (s.co d).zombie := by grind
  refine h.change (fun d hd => update_of_ne hd ..) (fun _ _ => Iff.rfl) (fun _ _ => Iff.rfl) h.nodup h.once ?_
    (Nat.le_refl _) h.lt_made (fun hc => absurd hc hq) (fun _ _ => hr) (by simp [hs])
  simp only [St.setCo_co, hzombie]
  exact h.count

/-- A registered coroutine becomes a zombie for the first time. -/
theorem Balanced.zombied (h : Balanced s) (hr : c ∈ s.registry) (hs : (s.co c).started = true)
    (hz : (s.co c).zombie = false) (hy : y = { s.co c with cancelled := true, zombie := true }) :
    Balanced { s.setCo c y with count := s.count - 1 } := by
  refine h.change (fun d hd => update_of_ne hd ..) (fun _ _ => Iff.rfl) (fun _ _ => Iff.rfl) h.nodup h.once ?_
    (Nat.le_refl _) h.lt_made (fun hc => absurd hc (h.not_queued hs)) (fun _ _ => hr) (by simp [hy, hs])
  have hcount := countP_change (p := fun d => !(update s.co c y d).zombie) (q := fun d => !(s.co d).zombie)
    (c := c) (fun d hd => by rw [update_of_ne hd]) h.nodup hr
  simp only [update_self, hy, hz, ← h.count, Bool.not_true, Bool.not_false, Bool.toNat_true,
    Bool.toNat_false] at hcount
  simp only [St.setCo_co, St.setCo_registry, hy]
  omega

theorem newCoroutine_self (s : St) (i : Nat) (kept : Bool) :
    (newCoroutine s i kept).co s.made = ⟨some i, .noStatus, false, false, false, false, false, kept⟩ := by
  rw [newCoroutine_co, update_self]

theorem Balanced.newCoroutine (h : Balanced s) (i : Nat) (kept : Bool) : Balanced (newCoroutine s i kept) := by
  have hfresh := h.made s.made (Nat.le_refl _)
  have hco : ∀ d, d ≠ s.made → (Registry.newCoroutine s i kept).co d = s.co d := fun d hd => by
    rw [newCoroutine_co, update_of_ne hd]
  refine h.change hco (fun _ _ => Iff.rfl) (fun _ _ => Iff.rfl) h.nodup h.once ?_ (Nat.le_succ _)
    (fun _ => Nat.lt_succ_self _) (fun hc => absurd hc hfresh.2) (by simp [newCoroutine_self])
    (by simp [newCoroutine_self])
  exact h.count.trans (countP_other (!·.zombie) hco hfresh.1).symm

theorem ignore_push (s : St) (front : Bool) (c : Nat) : ignore (push s front c) c =
    { s with queue := if front then c :: s.queue else s.queue ++ [c] }.setCo c { s.co c with status := .ignored } := by
  simp [ignore, push, St.setCo]

theorem cancelUnstarted_queued (h : (s.co c).status.inQueue = true) :
    cancelUnstarted s c = s.setCo c { s.co c with cancelled := true, status := .ignored } := by
  simp [cancelUnstarted, enqueue, h, St.setCo]

theorem cancelUnstarted_registered (h : ¬(s.co c).status.inQueue = true) (hr : c ∈ s.registry) :
    cancelUnstarted s c =
      { s with queue := s.queue ++ [c] }.setCo c { s.co c with cancelled := true, status := .ignored } := by
  simp [cancelUnstarted, enqueue, h, hr, St.setCo]

theorem cancelUnstarted_new (h : ¬(s.co c).status.inQueue = true) (hr : c ∉ s.registry)
    (hs : (s.co c).started = false) (hscope : (s.co c).scope.isSome = true) : cancelUnstarted s c =
      { register s c with queue := s.queue ++ [c] }.setCo c { s.co c with cancelled := true, status := .ignored } := by
  have hne : (s.co c).scope ≠ none := Option.isSome_iff_ne_none.1 hscope
  simp [cancelUnstarted, enqueue, h, hr, hs, hne, St.setCo, register]

/-- A cancellation before the start leaves an ignored entry, of a registered coroutine. -/
theorem Balanced.cancelUnstarted (h : Balanced s) (hm : c < s.made) (hscope : (s.co c).scope.isSome = true)
    (hs : (s.co c).started = false) (hreg : (s.co c).status.inQueue = true → c ∈ s.registry) :
    Balanced (cancelUnstarted s c) := by
  have hz : (s.co c).zombie = false := by grind [h.zombie]
  by_cases hin : (s.co c).status.inQueue = true
  · rw [cancelUnstarted_queued hin]
    exact h.setCo (fun _ => ⟨rfl, fun _ => hreg hin⟩) rfl rfl rfl
  have hq : c ∉ s.queue := fun hc => hin (h.queued c hc).1
  have hperm : (s.queue ++ [c]).Perm (c :: s.queue) := List.perm_append_singleton c s.queue
  by_cases hr : c ∈ s.registry
  · rw [cancelUnstarted_registered hin hr]
    exact h.push (y := { s.co c with cancelled := true, status := .ignored }) hm hq hs rfl (fun _ => hr) hs rfl rfl hperm
  · rw [cancelUnstarted_new hin hr hs hscope]
    exact (h.register hm hr hz).push (y := { s.co c with cancelled := true, status := .ignored }) hm hq hs rfl
      (fun _ => List.mem_append_right _ (List.mem_singleton_self c)) hs rfl rfl hperm

theorem dispose_kept (h : (s.co c).kept = true) : dispose s c = s := if_pos h

theorem Balanced.spawn (h : Balanced s) (i : Nat) (front : Bool) (x : Exit) (hx : x.Sound) :
    Balanced (spawn s i front x) := by
  have hnew := fun kept => h.newCoroutine i kept
  have hreg : s.made ∉ s.registry := (h.made s.made (Nat.le_refl _)).1
  have hqueue : s.made ∉ s.queue := (h.made s.made (Nat.le_refl _)).2
  have hself := fun kept => newCoroutine_self s i kept
  have hm : ∀ kept, s.made < (Registry.newCoroutine s i kept).made := fun _ => Nat.lt_succ_self _
  -- the coroutine in the table, with an entry of the given status
  have hentry : ∀ kept (st : Status), st.inQueue = true → Balanced ({ Registry.register (Registry.newCoroutine s i kept) s.made with
      queue := if front then s.made :: s.queue else s.queue ++ [s.made] }.setCo s.made
      { (Registry.newCoroutine s i kept).co s.made with status := st }) := by
    intro kept st hst
    have hregd := (hnew kept).register (hm kept) hreg (by rw [hself])
    refine hregd.push (y := { (Registry.newCoroutine s i kept).co s.made with status := st })
      (hm kept) hqueue ?_ hst (fun _ => ?_) ?_ rfl rfl (perm_push front s.queue s.made)
    · exact congrArg Co.started (hself kept)
    · exact List.mem_append_right _ (List.mem_singleton_self _)
    · exact congrArg Co.started (hself kept)
  unfold Registry.spawn
  split
  · exact h
  cases x with
  | refused => exact h
  | beforeHook k =>
    dsimp only [runHook]
    split
    · rename_i hc
      have hkept := hx hc
      have hcancelled := (hnew k.keeps).cancelUnstarted (hm _) (by rw [hself]; rfl) (by rw [hself])
        (by rw [hself]; exact (absurd · Bool.false_ne_true))
      rw [dispose_kept]
      · exact hcancelled
      · rw [(cancelUnstarted_frame _ _).2.2, update_self, hself]
        exact hkept
    · exact (hnew k.keeps).dispose hqueue
  | queueFull k =>
    have hc : k.cancels = false := hx
    dsimp only [runHook]
    rw [hc, if_neg Bool.false_ne_true]
    refine Balanced.dispose ?_ hqueue
    exact (hnew k.keeps).setCo (fun hmem => absurd hmem hqueue) rfl rfl rfl
  | registryFull k =>
    have hc : k.cancels = false := hx
    dsimp only [runHook]
    rw [hc, if_neg Bool.false_ne_true, ignore_push]
    refine (hnew k.keeps).push (y := { (Registry.newCoroutine s i k.keeps).co s.made with status := .ignored })
      (hm _) hqueue ?_ rfl ?_ ?_ rfl rfl (perm_push front s.queue s.made)
    · exact congrArg Co.started (hself k.keeps)
    · simp [hself k.keeps]
    · exact congrArg Co.started (hself k.keeps)
  | afterHook k =>
    dsimp only [runHook]
    split
    · have hq := (hentry k.keeps .queued rfl).cancelUnstarted (c := s.made) (hm k.keeps) (by simp [hself]) (by simp [hself])
        fun _ => List.mem_append_right _ (List.mem_singleton_self _)
      refine hq.setCo (fun hmem => ⟨rfl, fun _ => ?_⟩) rfl rfl rfl
      refine hq.registered s.made hmem (.inr ?_)
      rw [(cancelUnstarted_frame _ _).2.2, update_self]
    · have heq : ignore (Registry.register (Registry.push (Registry.newCoroutine s i k.keeps) front s.made) s.made) s.made =
          Registry.register (ignore (Registry.push (Registry.newCoroutine s i k.keeps) front s.made) s.made) s.made := rfl
      rw [heq, ignore_push]
      exact hentry k.keeps .ignored rfl
  | spawned => exact hentry false .queued rfl

theorem markZombie_frame (s : St) (c : Nat) (hz : (s.co c).zombie = false) :
    (markZombie s c).registry = s.registry ∧ (markZombie s c).count = s.count ∧
    (markZombie s c).queue = s.queue ∧ (markZombie s c).made = s.made ∧
    (markZombie s c).co = update s.co c { s.co c with zombie := true } := by
  unfold markZombie
  rw [if_neg (by simp [hz])]
  dsimp only
  split
  · split <;> exact ⟨rfl, rfl, rfl, rfl, rfl⟩
  · exact ⟨rfl, rfl, rfl, rfl, rfl⟩

theorem Balanced.cancel (h : Balanced s) {safely : Bool} (hm : c < s.made) (hscope : (s.co c).scope.isSome = true)
    (honce : Once s (.cancel c safely)) : Balanced (cancel s c safely) := by
  have hmark : Balanced (s.setCo c { s.co c with cancelled := true }) :=
    h.setCo (fun hc => ⟨(h.queued c hc).1, fun _ => honce.2 (h.queued c hc).1⟩) rfl rfl rfl
  unfold Registry.cancel
  dsimp only
  split
  · exact h
  rename_i hf
  split
  · exact hmark
  split
  · exact h
  split
  · rename_i hs
    exact h.cancelUnstarted hm hscope hs honce.2
  rename_i hs
  have hs : (s.co c).started = true := by simpa using hs
  split
  · rename_i hsafe
    have hz := honce.1 hsafe
    have hr := h.started c hs (Bool.eq_false_iff.2 hf)
    obtain ⟨hreg, hcount, hqueue, hmade, hco⟩ :=
      markZombie_frame (s.setCo c { s.co c with cancelled := true }) c (by simpa using hz)
    refine (h.zombied hr hs hz rfl).congr hreg ?_ hqueue (Nat.le_of_eq hmade.symm) fun d => ?_
    · exact congrArg (· - 1) hcount
    · simp [hco]
  · exact hmark

/-- Every step keeps the registry and its count. -/
theorem Balanced.step {l : Lbl} (h : Balanced s) (hscoped : Scoped s) (honce : Once s l)
    (hst : step s l = some t) : Balanced t := by
  cases l with
  | spawn i front x =>
    cases hst
    exact h.spawn i front x honce
  | next =>
    simp only [Registry.step] at hst
    split at hst
    · cases hst
    · rename_i c q hq
      have hmem : c ∈ s.queue := hq ▸ List.mem_cons_self
      obtain ⟨hpop, hnot⟩ := h.pop hq
      split at hst <;> cases hst
      · grind [finalize_queue, hpop.finalize, h.registered, hpop.dispose, executeIgnored, finalize, dispose]
      · rename_i hig
        have hstat : (s.co c).status = .queued := (inQueue_iff.1 (h.queued c hmem).1).resolve_right hig
        exact hpop.begin (h.registered c hmem (.inl hstat)) hnot rfl rfl
  | finish c =>
    obtain ⟨hc, ⟨⟩⟩ := Option.ite_none_right_eq_some.1 hst
    exact h.finalize (h.started c hc.1 hc.2) (h.not_queued hc.1)
  | cancel c safely =>
    obtain ⟨hc, ⟨⟩⟩ := Option.ite_none_right_eq_some.1 hst
    exact h.cancel (hscoped.made c hc) hc honce
  | protect c on =>
    obtain ⟨hc, ⟨⟩⟩ := Option.ite_none_right_eq_some.1 hst
    exact h.setCo (fun hq => absurd hq (h.not_queued hc)) rfl rfl rfl
  | switch c =>
    cases hst
    exact h.congr rfl rfl rfl (Nat.le_refl _) fun _ => ⟨rfl, rfl, rfl, rfl, rfl⟩
  | close i =>
    cases hst
    exact h.congr rfl rfl rfl (Nat.le_refl _) fun _ => ⟨rfl, rfl, rfl, rfl, rfl⟩

end Registered

theorem balanced_inductive : (lts.restrict Once).Inductive fun s => Scoped s ∧ Balanced s where
  init s hs := by
    refine ⟨scoped_inductive.init s hs, ?_⟩
    rw [show s = start from hs]
    exact ⟨List.nodup_nil, rfl, fun _ _ => ⟨List.not_mem_nil, List.not_mem_nil⟩, List.nodup_nil,
      fun _ hc => absurd hc List.not_mem_nil, fun _ hc => absurd hc List.not_mem_nil,
      fun _ hs => absurd hs Bool.false_ne_true, fun _ hz => absurd hz Bool.false_ne_true⟩
  step _ _ _ h hst := ⟨h.1.step hst.2, h.2.step h.1 hst.1 hst.2⟩

/-- **The counters count.** In every run the counters of a scope are the numbers of the
coroutines and the zombies in its vector; and as long as nobody is counted out twice, the
global count is the number of the registered coroutines that are no zombies. -/
theorem counters_count (s : St) :
    (lts.Reachable s → ∀ i,
      (s.scopes i).active = (s.scopes i).coroutines.countP (fun c => !(s.co c).zombie) ∧
      (s.scopes i).zombies = (s.scopes i).coroutines.countP fun c => (s.co c).zombie) ∧
    ((lts.restrict Once).Reachable s → s.count = s.registry.countP fun c => !(s.co c).zombie) := by
  refine ⟨fun hs i => ?_, fun hs => ?_⟩
  · have h := (scoped_inductive.reachable s hs).exact i
    exact ⟨h.active, h.zombies⟩
  · exact (balanced_inductive.reachable s hs).2.count

/-- Two coroutines; one is started, cancelled in the safe mode and then cancelled again. -/
theorem counters_count_once :
    ∃ s : St, s.registry = [0, 1] ∧ (s.co 0).zombie = true ∧ (s.co 0).cancelled = true ∧ (s.scopes 5).zombies = 1 ∧
      s.count = s.registry.countP fun c => !(s.co c).zombie := by
  obtain ⟨s, hr, hreg, hz, hc, hs⟩ := LTS.existsG_from (G := Once) (f := step) start
    [.spawn 5 false .spawned, .spawn 5 true .spawned, .next, .next, .cancel 0 true, .cancel 0 false]
    (P := fun s => s.registry = [0, 1] ∧ (s.co 0).zombie = true ∧ (s.co 0).cancelled = true ∧
      (s.scopes 5).zombies = 1) (by decide +kernel)
  exact ⟨s, hreg, hz, hc, hs, (counters_count s).2 hr⟩

/-- **Counterexample.** Two coroutines have started. The second is cancelled in the safe
mode, twice: its scope counts one active coroutine and one zombie, and the global count is
zero while the first is still running. -/
theorem zombie_counted_twice :
    ∃ s, lts.Reachable s ∧ s.registry = [0, 1] ∧ (s.co 0).zombie = false ∧ (s.co 0).finished = false ∧
      (s.co 1).zombie = true ∧ s.scopes 5 = ⟨[0, 1], 1, 1, false⟩ ∧ s.count = 0 := by
  exact LTS.exists_from (f := step) start
    [.spawn 5 false .spawned, .spawn 5 false .spawned, .next, .next, .cancel 1 true, .cancel 1 true] (by decide +kernel)

end PhpAsync.L2.Registry
