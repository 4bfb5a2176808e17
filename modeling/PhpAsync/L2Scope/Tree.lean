import PhpAsync.L2Scope.Model

/-!
# The tree of scopes

The vectors `scopes` make a forest, a parent pointer agrees with the vector of the
parent, every coroutine stands in the vector of its scope only, and the counters of a
scope are at least the number of its coroutines (`Tree`).

* `done_unless_stopped`: when `scope_can_be_disposed(scope, true, false)` says so, every
  coroutine at or below the scope lies below a scope that is closed or cancelled.
-/
namespace PhpAsync.L2.Scopes

open PhpAsync.Core Function

variable {E : Type}

/-- A record that was never used, or is gone. -/
structure Scope.Blank (x : Scope) : Prop where
  parent : x.parent = none
  scopes : x.scopes = []
  coroutines : x.coroutines = []
  callbacks : x.callbacks = []
  finallyHandlers : x.finallyHandlers = []
  closed : x.closed = false
  cancelled : x.cancelled = false

theorem blank_default : Scope.Blank {} := ⟨rfl, rfl, rfl, rfl, rfl, rfl, rfl⟩

structure Tree (s : St E) : Prop where
  forest : Forest s.kids s.nScopes
  living : ∀ i, (s.scopes i).alive = true → i < s.nScopes
  kin : ∀ i j, j ∈ s.kids i → (s.scopes j).alive = true
  blank : ∀ i, (s.scopes i).alive = false → (s.scopes i).Blank
  linked : ∀ j p, (s.scopes j).parent = some p → j ∈ s.kids p
  home : ∀ i d, d ∈ (s.scopes i).coroutines → (s.coroutines d).scope = some i
  once : ∀ i, (s.scopes i).coroutines.Nodup
  counted : ∀ i, (s.scopes i).coroutines.length ≤ (s.scopes i).active + (s.scopes i).zombies
  unborn : ∀ d, s.nCoroutines ≤ d → s.coroutines d = {}

theorem tree_start : Tree (start : St E) where
  forest := {
    younger _ _ h := by cases h
    known _ _ h := by cases h
    nodup _ := List.nodup_nil
    unique _ _ _ h := by cases h }
  living _ h := by cases h
  kin _ _ h := by cases h
  blank _ _ := blank_default
  linked _ _ h := by cases h
  home _ _ h := by cases h
  once _ := List.nodup_nil
  counted _ := Nat.le_refl _
  unborn _ _ := rfl

/-- What the tree says about one scope. -/
structure Fits (s : St E) (i : Nat) : Prop where
  living : (s.scopes i).alive = true → i < s.nScopes
  kin : ∀ p, i ∈ s.kids p → (s.scopes i).alive = true
  blank : (s.scopes i).alive = false → (s.scopes i).Blank
  linked : ∀ p, (s.scopes i).parent = some p → i ∈ s.kids p
  home : ∀ d, d ∈ (s.scopes i).coroutines → (s.coroutines d).scope = some i
  once : (s.scopes i).coroutines.Nodup
  counted : (s.scopes i).coroutines.length ≤ (s.scopes i).active + (s.scopes i).zombies

variable {s t : St E}

theorem Tree.fits (h : Tree s) (i : Nat) : Fits s i :=
  ⟨h.living i, fun p => h.kin p i, h.blank i, h.linked i, h.home i, h.once i, h.counted i⟩

theorem Tree.of_fits (hf : Forest s.kids s.nScopes) (hu : ∀ d, s.nCoroutines ≤ d → s.coroutines d = {})
    (h : ∀ i, Fits s i) : Tree s :=
  ⟨hf, fun i => (h i).living, fun p i => (h i).kin p, fun i => (h i).blank, fun i => (h i).linked,
    fun i => (h i).home, fun i => (h i).once, fun i => (h i).counted, hu⟩

variable {i : Nat}

/-- A scope that keeps its coroutines and its place fits as before. -/
theorem Fits.keep (h : Fits s i) (hn : s.nScopes ≤ t.nScopes)
    (halive : (t.scopes i).alive = (s.scopes i).alive) (hkin : ∀ p, i ∈ t.kids p → i ∈ s.kids p)
    (hblank : (s.scopes i).alive = false → (s.scopes i).Blank → (t.scopes i).Blank)
    (hlink : ∀ p, (t.scopes i).parent = some p → (s.scopes i).parent = some p ∧ (i ∈ s.kids p → i ∈ t.kids p))
    (hco : (t.scopes i).coroutines = (s.scopes i).coroutines)
    (hcount : (t.scopes i).active + (t.scopes i).zombies = (s.scopes i).active + (s.scopes i).zombies)
    (hhome : ∀ d ∈ (s.scopes i).coroutines, (t.coroutines d).scope = (s.coroutines d).scope) : Fits t i where
  living ha := Nat.lt_of_lt_of_le (h.living (halive ▸ ha)) hn
  kin p hp := halive.trans (h.kin p (hkin p hp))
  blank ha := hblank (halive ▸ ha) (h.blank (halive ▸ ha))
  linked p hp := (hlink p hp).2 (h.linked p (hlink p hp).1)
  home d hd := (hhome d (hco ▸ hd)).trans (h.home d (hco ▸ hd))
  once := hco ▸ h.once
  counted := hco ▸ hcount ▸ h.counted

/-- A scope that does not change fits as before. -/
theorem Fits.same (h : Fits s i) (hx : t.scopes i = s.scopes i) (hn : s.nScopes ≤ t.nScopes)
    (hkin : ∀ p, i ∈ t.kids p ↔ i ∈ s.kids p)
    (hhome : ∀ d ∈ (s.scopes i).coroutines, (t.coroutines d).scope = (s.coroutines d).scope) : Fits t i :=
  h.keep hn (hx ▸ rfl) (fun p => (hkin p).1) (fun _ hb => hx ▸ hb) (fun p hp => ⟨hx ▸ hp, (hkin p).2⟩) (hx ▸ rfl)
    (hx ▸ rfl) hhome

/-- A record that is not in use fits. -/
theorem Fits.unused (hx : s.scopes i = {}) (hk : ∀ p, i ∉ s.kids p) : Fits s i := by
  constructor <;> simp [hx, hk, blank_default]

namespace Tree

theorem known (h : Tree s) {d : Nat} (hd : d ∈ (s.scopes i).coroutines) : d < s.nCoroutines := by
  by_contra hlt
  have hhome := h.home i d hd
  rw [h.unborn d (Nat.le_of_not_lt hlt)] at hhome
  cases hhome

theorem dead (h : Tree s) (hi : s.nScopes ≤ i) : (s.scopes i).alive = false := by
  by_contra ha
  exact absurd (h.living i (by simpa using ha)) (Nat.not_lt.2 hi)

theorem beyond (h : Tree s) (hi : s.nScopes ≤ i) : (s.scopes i).Blank :=
  h.blank i (h.dead hi)

theorem alive_of_kid (h : Tree s) {j : Nat} (hj : j ∈ s.kids i) : (s.scopes i).alive = true := by
  by_contra ha
  have hb := (h.blank i (by simpa using ha)).scopes
  unfold St.kids at hj
  rw [hb] at hj
  cases hj

theorem parent_alive (h : Tree s) {j p : Nat} (hp : (s.scopes j).parent = some p) :
    (s.scopes p).alive = true := h.alive_of_kid (h.linked j p hp)

theorem alive_of_member (h : Tree s) {d : Nat} (hd : d ∈ (s.scopes i).coroutines) :
    (s.scopes i).alive = true := by
  by_contra ha
  rw [(h.blank i (by simpa using ha)).coroutines] at hd
  cases hd

end Tree

/-! ## Who is unfinished -/

theorem mem_unfinished (h : Tree s) {d : Nat} :
    d ∈ unfinished s i ↔ ∃ j, Within s.kids i j ∧ d ∈ (s.scopes j).coroutines ∧
      (s.coroutines d).finished = false := by
  unfold unfinished
  simp only [List.mem_flatMap, List.mem_filter, Bool.not_eq_true']
  constructor
  · rintro ⟨j, hj, hd, hf⟩
    exact ⟨j, within_of_mem_below hj, hd, hf⟩
  · rintro ⟨j, hj, hd, hf⟩
    exact ⟨j, mem_below h.forest hj, hd, hf⟩

theorem mem_belowScope (h : Tree s) {j : Nat} : j ∈ s.below i ↔ Within s.kids i j :=
  ⟨within_of_mem_below, mem_below h.forest⟩

/-- Closed or cancelled. -/
def stopped (s : St E) (i : Nat) : Bool := (s.scopes i).closed || (s.scopes i).cancelled

/-- **The completion test stops at flags.** -/
theorem done_unless_stopped (h : Tree s) {fuel : Nat}
    (hd : canBeDisposed s true false fuel i = true) {j d : Nat} (hj : Within s.kids i j)
    (hmem : d ∈ (s.scopes j).coroutines) : ∃ k, Within s.kids i k ∧ Within s.kids k j ∧ stopped s k = true := by
  induction fuel generalizing i with
  | zero => cases hd
  | succ fuel ih =>
    by_cases hst : stopped s i = true
    · exact ⟨i, .refl i, hj, hst⟩
    · unfold canBeDisposed at hd
      have hst' : ((s.scopes i).closed || (s.scopes i).cancelled) = false := by simpa [stopped] using hst
      simp only [Bool.not_false, Bool.true_and, hst', Bool.false_eq_true, if_false, if_true] at hd
      split at hd
      · cases hd
      · rename_i hcount
        simp only [Bool.false_and, Bool.false_eq_true, if_false, List.all_eq_true] at hd
        cases hj with
        | refl =>
          -- the scope itself has no coroutines
          have hlen := h.counted j
          have hpos := List.length_pos_of_mem hmem
          omega
        | @down _ k _ hk hkj =>
          obtain ⟨k', hw, hw', hs⟩ := ih (hd k hk) hkj
          exact ⟨k', .down hk hw, hw', hs⟩

/-! ## Plain updates -/

/-- Cancellation has been applied. -/
def Coroutine.touched (x : Coroutine) : Bool := x.cancelled || x.deferred || x.zombie

structure Coroutine.Like (x y : Coroutine) : Prop where
  scope : y.scope = x.scope
  finished : y.finished = x.finished
  touched : x.touched = true → y.touched = true

theorem Coroutine.Like.refl (x : Coroutine) : x.Like x := ⟨rfl, rfl, id⟩

variable {x : Coroutine}

theorem Coroutine.Like.trans {y z : Coroutine} (h : x.Like y) (h' : y.Like z) : x.Like z where
  scope := h'.scope.trans h.scope
  finished := h'.finished.trans h.finished
  touched hx := h'.touched (h.touched hx)

structure Scope.Like (x y : Scope) : Prop where
  alive : y.alive = x.alive
  parent : y.parent = x.parent
  scopes : y.scopes = x.scopes
  coroutines : y.coroutines = x.coroutines
  closed : y.closed = x.closed
  cancelled : y.cancelled = x.cancelled
  finallyHandlers : y.finallyHandlers = x.finallyHandlers
  handler : y.handler = x.handler
  childHandler : y.childHandler = x.childHandler
  callbacks : y.callbacks ⊆ x.callbacks
  counted : y.active + y.zombies = x.active + x.zombies

theorem Scope.Like.refl (x : Scope) : x.Like x :=
  ⟨rfl, rfl, rfl, rfl, rfl, rfl, rfl, rfl, rfl, List.Subset.refl _, rfl⟩

theorem Scope.Like.trans {x y z : Scope} (h : x.Like y) (h' : y.Like z) : x.Like z where
  alive := h'.alive.trans h.alive
  parent := h'.parent.trans h.parent
  scopes := h'.scopes.trans h.scopes
  coroutines := h'.coroutines.trans h.coroutines
  closed := h'.closed.trans h.closed
  cancelled := h'.cancelled.trans h.cancelled
  finallyHandlers := h'.finallyHandlers.trans h.finallyHandlers
  handler := h'.handler.trans h.handler
  childHandler := h'.childHandler.trans h.childHandler
  callbacks := List.Subset.trans h'.callbacks h.callbacks
  counted := h'.counted.trans h.counted

/-- Neither the tree nor the flags of scopes change, and no coroutine ends. -/
structure Soft (s t : St E) : Prop where
  nScopes : t.nScopes = s.nScopes
  nCoroutines : t.nCoroutines = s.nCoroutines
  contexts : t.contexts = s.contexts
  calls : t.calls = s.calls
  scope : ∀ i, (s.scopes i).Like (t.scopes i)
  coroutine : ∀ d, (s.coroutines d).Like (t.coroutines d)
  unborn : ∀ d, s.nCoroutines ≤ d → t.coroutines d = s.coroutines d

namespace Soft

theorem refl (s : St E) : Soft s s :=
  ⟨rfl, rfl, rfl, rfl, fun _ => .refl _, fun _ => .refl _, fun _ _ => rfl⟩

theorem trans {u : St E} (h : Soft s t) (h' : Soft t u) : Soft s u where
  nScopes := h'.nScopes.trans h.nScopes
  nCoroutines := h'.nCoroutines.trans h.nCoroutines
  contexts := h'.contexts.trans h.contexts
  calls := h'.calls.trans h.calls
  scope i := (h.scope i).trans (h'.scope i)
  coroutine d := (h.coroutine d).trans (h'.coroutine d)
  unborn d hd := (h'.unborn d (by rw [h.nCoroutines]; exact hd)).trans (h.unborn d hd)

theorem setScope {x : Scope} (h : (s.scopes i).Like x) : Soft s (s.setScope i x) := by
  refine ⟨rfl, rfl, rfl, rfl, fun j => ?_, fun _ => .refl _, fun _ _ => rfl⟩
  by_cases hj : j = i
  · subst hj
    rw [setScope_self]
    exact h
  · rw [setScope_ne _ _ _ hj]
    exact .refl _

theorem setCoroutine {d : Nat} (hd : d < s.nCoroutines)
    (h : (s.coroutines d).Like x) : Soft s (s.setCoroutine d x) := by
  refine ⟨rfl, rfl, rfl, rfl, fun _ => .refl _, fun c => ?_, fun c hc => ?_⟩
  · by_cases hcd : c = d
    · subst hcd
      rw [setCoroutine_self]
      exact h
    · rw [setCoroutine_ne _ _ _ hcd]
      exact .refl _
  · exact setCoroutine_ne _ _ _ (by omega)

theorem kids (h : Soft s t) : t.kids = s.kids := by
  funext i
  exact (h.scope i).scopes

theorem unfinished (h : Soft s t) (i : Nat) : unfinished t i = unfinished s i := by
  unfold Scopes.unfinished St.below
  rw [h.kids, h.nScopes]
  congr 1
  funext j
  rw [(h.scope j).coroutines]
  congr 1
  funext d
  rw [(h.coroutine d).finished]

theorem stopped (h : Soft s t) (i : Nat) : stopped t i = stopped s i := by
  unfold Scopes.stopped
  rw [(h.scope i).closed, (h.scope i).cancelled]

end Soft

theorem Tree.soft (h : Tree s) (hs : Soft s t) : Tree t := by
  refine Tree.of_fits (by rw [hs.kids, hs.nScopes]; exact h.forest) (fun d hd => ?_) fun i => ?_
  · rw [hs.nCoroutines] at hd
    exact (hs.unborn d hd).trans (h.unborn d hd)
  · have hl := hs.scope i
    refine (h.fits i).keep (Nat.le_of_eq hs.nScopes.symm) hl.alive (fun p => hs.kids ▸ id) (fun _ hb => ?_)
      (fun p hp => ⟨hl.parent ▸ hp, hs.kids ▸ id⟩) hl.coroutines hl.counted fun d _ => (hs.coroutine d).scope
    exact ⟨hl.parent.trans hb.parent, hl.scopes.trans hb.scopes, hl.coroutines.trans hb.coroutines,
      List.subset_nil.1 (hb.callbacks ▸ hl.callbacks), hl.finallyHandlers.trans hb.finallyHandlers,
      hl.closed.trans hb.closed, hl.cancelled.trans hb.cancelled⟩

/-- The tree is about scopes and coroutines only. -/
theorem Tree.congr (h : Tree s) (h₁ : t.scopes = s.scopes) (h₂ : t.nScopes = s.nScopes)
    (h₃ : t.coroutines = s.coroutines) (h₄ : t.nCoroutines = s.nCoroutines) : Tree t := by
  have hk : t.kids = s.kids := by
    funext i
    unfold St.kids
    rw [h₁]
  exact Tree.of_fits (by rw [hk, h₂]; exact h.forest) (by rw [h₃, h₄]; exact h.unborn) fun i =>
    (h.fits i).same (h₁ ▸ rfl) (Nat.le_of_eq h₂.symm) (fun p => by rw [hk]) fun d _ => h₃ ▸ rfl

variable {α : Type}

/-- A field that the update of one record leaves alone. -/
theorem setScope_field (f : Scope → α) {x : Scope}
    (h : f x = f (s.scopes i)) (j : Nat) : f ((s.setScope i x).scopes j) = f (s.scopes j) := by
  by_cases hj : j = i
  · subst hj
    rw [setScope_self, h]
  · rw [setScope_ne _ _ _ hj]

theorem setScope_kids {x : Scope} (h : x.scopes = (s.scopes i).scopes) :
    (s.setScope i x).kids = s.kids := funext fun j => setScope_field Scope.scopes h j

theorem setCoroutine_field (f : Coroutine → α) {d : Nat}
    (h : f x = f (s.coroutines d)) (c : Nat) : f ((s.setCoroutine d x).coroutines c) = f (s.coroutines c) := by
  by_cases hc : c = d
  · subst hc
    rw [setCoroutine_self, h]
  · rw [setCoroutine_ne _ _ _ hc]

/-- A coroutine that is in a vector stays in its scope. -/
theorem Tree.setCoroutine (h : Tree s) {d : Nat} (hd : d < s.nCoroutines)
    (hx : ∀ i, d ∈ (s.scopes i).coroutines → x.scope = (s.coroutines d).scope) : Tree (s.setCoroutine d x) := by
  refine Tree.of_fits h.forest (fun c hc => ?_) fun i =>
    (h.fits i).same rfl (Nat.le_refl _) (fun _ => Iff.rfl) fun c hc => ?_
  · rw [setCoroutine_ne _ _ _ (Nat.ne_of_gt (Nat.lt_of_lt_of_le hd hc))]
    exact h.unborn c hc
  · by_cases hcd : c = d
    · subst hcd
      rw [setCoroutine_self, hx i hc]
    · rw [setCoroutine_ne _ _ _ hcd]

/-! ## New scopes and coroutines -/

/-- A change of flags at one living scope. -/
theorem Tree.mark (h : Tree s) (ha : (s.scopes i).alive = true) {x : Scope}
    (h₁ : x.alive = (s.scopes i).alive) (h₂ : x.parent = (s.scopes i).parent)
    (h₃ : x.scopes = (s.scopes i).scopes) (h₄ : x.coroutines = (s.scopes i).coroutines)
    (h₅ : x.active + x.zombies = (s.scopes i).active + (s.scopes i).zombies) : Tree (s.setScope i x) := by
  have hk := setScope_kids h₃
  refine Tree.of_fits (by rw [hk]; exact h.forest) h.unborn fun j => ?_
  by_cases hji : j = i
  · subst hji
    refine (h.fits j).keep (Nat.le_refl _) ?_ (fun p => hk ▸ id) (fun hf => by simp [ha] at hf) (fun p hp => ⟨?_, hk ▸ id⟩)
      ?_ ?_ fun _ _ => rfl <;> simp_all
  · exact (h.fits j).same (setScope_ne _ _ _ hji) (Nat.le_refl _) (fun p => by rw [hk]) fun _ _ => rfl

section NewScope

variable {p : Nat} (object : Bool)

theorem newScope_self (hp : p ≠ s.nScopes) : (newScope s (some p) object).scopes s.nScopes =
    { alive := true, parent := some p, object := object, safely := (s.scopes p).safely, refs := 1 } := by
  unfold newScope addChild
  rw [setScope_ne _ _ _ (Ne.symm hp)]
  exact update_self ..

theorem newScope_parent (hp : p ≠ s.nScopes) : (newScope s (some p) object).scopes p =
    { s.scopes p with scopes := (s.scopes p).scopes ++ [s.nScopes] } := by
  have hx : ∀ x, (allocScope s x).scopes p = s.scopes p := fun _ => update_of_ne hp ..
  unfold newScope addChild
  rw [setScope_self, hx]

theorem newScope_other {j : Nat} (hj : j ≠ p) (hn : j ≠ s.nScopes) :
    (newScope s (some p) object).scopes j = s.scopes j := by
  unfold newScope addChild
  rw [setScope_ne _ _ _ hj]
  exact update_of_ne hn ..

theorem newScope_kids (h : Tree s) (hp : p < s.nScopes) :
    (newScope s (some p) object).kids = graft s.kids p s.nScopes := by
  funext j
  unfold St.kids graft
  have hpn := Nat.ne_of_lt hp
  by_cases hj : j = p
  · subst hj
    rw [update_self, newScope_parent object hpn]
  · rw [update_of_ne hj]
    by_cases hn : j = s.nScopes
    · subst hn
      rw [newScope_self object hpn, (h.beyond (Nat.le_refl _)).scopes]
    · rw [newScope_other object hj hn]

end NewScope

theorem Tree.newChild (h : Tree s) {p : Nat} (ha : (s.scopes p).alive = true)
    (object : Bool) : Tree (newScope s (some p) object) := by
  have hp := h.living p ha
  have hpn := Nat.ne_of_lt hp
  have hk := newScope_kids object h hp
  refine Tree.of_fits (by rw [hk]; exact h.forest.graft hp) h.unborn fun j => ?_
  by_cases hn : j = s.nScopes
  · subst hn
    have hx := newScope_self (s := s) object hpn
    constructor <;> simp only [hx]
    · exact fun _ => Nat.lt_succ_self _
    · simp
    · simp
    · rintro _ ⟨⟩
      rw [hk, graft, update_self]
      exact List.mem_append_right _ (List.mem_singleton_self _)
    · simp
    · exact List.nodup_nil
    · exact Nat.le_refl _
  · have hkin : ∀ q, j ∈ (Scopes.newScope s (some p) object).kids q ↔ j ∈ s.kids q := fun q => by
      rw [hk, graft, update_apply]
      split <;> simp [*]
    by_cases hjp : j = p
    · subst hjp
      have hx := newScope_parent (s := s) object hpn
      refine (h.fits j).keep (Nat.le_succ _) ?_ (fun q => (hkin q).1) (fun hf => by simp [ha] at hf)
        (fun q hq => ⟨?_, (hkin q).2⟩) ?_ ?_ fun _ _ => rfl <;> simp_all
    · exact (h.fits j).same (newScope_other object hjp hn) (Nat.le_succ _) hkin fun _ _ => rfl

theorem newRoot_self (s : St E) (object : Bool) : (newScope s none object).scopes s.nScopes =
    { alive := true, object := object, safely := !object, refs := 1 } := update_self ..

theorem newRoot_other (s : St E) (object : Bool) {j : Nat} (hj : j ≠ s.nScopes) :
    (newScope s none object).scopes j = s.scopes j := update_of_ne hj ..

theorem newRoot_kids (h : Tree s) (object : Bool) : (newScope s none object).kids = s.kids := by
  funext j
  unfold St.kids
  by_cases hn : j = s.nScopes
  · subst hn
    rw [newRoot_self, (h.beyond (Nat.le_refl _)).scopes]
  · rw [newRoot_other s object hn]

theorem Tree.newRoot (h : Tree s) (object : Bool) : Tree (newScope s none object) := by
  have hk := newRoot_kids h object
  refine Tree.of_fits (by rw [hk]; exact h.forest.root) h.unborn fun j => ?_
  by_cases hn : j = s.nScopes
  · subst hn
    constructor <;> simp only [newRoot_self]
    · exact fun _ => Nat.lt_succ_self _
    all_goals simp
  · exact (h.fits j).same (newRoot_other s object hn) (Nat.le_succ _) (fun p => by rw [hk]) fun _ _ => rfl

theorem Tree.newScope (h : Tree s) {parent : Option Nat}
    (ha : ∀ p, parent = some p → (s.scopes p).alive = true) (object : Bool) :
    Tree (newScope s parent object) := by
  cases parent with
  | none => exact h.newRoot object
  | some p => exact h.newChild (ha p rfl) object

/-- Of the old scopes only the parent changes, by one more child. -/
theorem newScope_record (h : Tree s) {parent : Option Nat} (ha : ∀ p, parent = some p → (s.scopes p).alive = true)
    (object : Bool) (j : Nat) : (∃ l, (newScope s parent object).scopes j = { s.scopes j with scopes := l }) ∨
      (j = s.nScopes ∧ ∃ b, (newScope s parent object).scopes j =
        { alive := true, parent := parent, object := object, safely := b, refs := 1 }) := by
  by_cases hj : j = s.nScopes
  · subst hj
    cases parent with
    | none => exact .inr ⟨rfl, _, newRoot_self s object⟩
    | some p => exact .inr ⟨rfl, _, newScope_self object (Nat.ne_of_lt (h.living p (ha p rfl)))⟩
  · cases parent with
    | none => exact .inl ⟨_, newRoot_other s object hj⟩
    | some p =>
      by_cases hjp : j = p
      · subst hjp
        exact .inl ⟨_, newScope_parent object hj⟩
      · exact .inl ⟨_, newScope_other object hjp hj⟩

theorem spawn_self (s : St E) (i : Nat) : (spawn s i).scopes i =
    { s.scopes i with coroutines := (s.scopes i).coroutines ++ [s.nCoroutines],
                      active := (s.scopes i).active + 1 } := setScope_self ..

theorem spawn_other (s : St E) {j : Nat} (hj : j ≠ i) : (spawn s i).scopes j = s.scopes j :=
  setScope_ne _ _ _ hj

theorem spawn_new (s : St E) (i : Nat) : (spawn s i).coroutines s.nCoroutines = { scope := some i } :=
  update_self ..

theorem spawn_old (s : St E) (i : Nat) {d : Nat} (hd : d ≠ s.nCoroutines) :
    (spawn s i).coroutines d = s.coroutines d := update_of_ne hd ..

/-- Of a scope only the vector and the counter of active coroutines change. -/
theorem spawn_field (f : Scope → α)
    (hf : ∀ x l n, f { x with coroutines := l, active := n } = f x) (s : St E) (i j : Nat) :
    f ((spawn s i).scopes j) = f (s.scopes j) := by
  by_cases hj : j = i
  · subst hj
    rw [spawn_self, hf]
  · rw [spawn_other s hj]

theorem spawn_kids (s : St E) (i : Nat) : (spawn s i).kids = s.kids :=
  funext fun j => spawn_field Scope.scopes (fun _ _ _ => rfl) s i j

theorem Tree.spawn (h : Tree s) {i : Nat} (ha : (s.scopes i).alive = true) : Tree (spawn s i) := by
  have hk := spawn_kids s i
  have hhome : ∀ j, ∀ d ∈ (s.scopes j).coroutines, ((Scopes.spawn s i).coroutines d).scope = (s.coroutines d).scope :=
    fun j d hd => by rw [spawn_old s i (Nat.ne_of_lt (h.known hd))]
  refine Tree.of_fits (by rw [hk]; exact h.forest) (fun d hd => ?_) fun j => ?_
  · have hd' : s.nCoroutines + 1 ≤ d := hd
    rw [spawn_old s i (by omega)]
    exact h.unborn d (by omega)
  by_cases hj : j = i
  · subst hj
    have hf := h.fits j
    constructor <;> simp only [hk, spawn_self]
    · exact hf.living
    · exact hf.kin
    · simp [ha]
    · exact hf.linked
    · intro d hd
      rcases List.mem_append.1 hd with hd | hd
      · exact (hhome j d hd).trans (hf.home d hd)
      · rw [List.mem_singleton.1 hd, spawn_new]
    · refine List.nodup_append.2 ⟨h.once j, List.nodup_singleton _, fun a ha' b hb => ?_⟩
      rw [List.mem_singleton.1 hb]
      exact Nat.ne_of_lt (h.known ha')
    · have := h.counted j
      simp only [List.length_append, List.length_singleton]
      omega
  · exact (h.fits j).same (spawn_other s hj) (Nat.le_refl _) (fun p => by rw [hk]) (hhome j)

/-! ## Scopes go -/

theorem unlink_kids (s : St E) (j : Nat) : (unlink s j).kids = s.kids := setScope_kids rfl

theorem Tree.unlink (h : Tree s) (j : Nat) : Tree (unlink s j) := by
  have hk := unlink_kids s j
  refine Tree.of_fits (by rw [hk]; exact h.forest) h.unborn fun i => ?_
  by_cases hij : i = j
  · subst hij
    have hx : (Scopes.unlink s i).scopes i = { s.scopes i with parent := none } := setScope_self ..
    refine (h.fits i).keep (Nat.le_refl _) (by rw [hx]) (fun p => hk ▸ id) (fun _ hb => ?_) (fun p hp => ?_) (by rw [hx])
      (by rw [hx]) fun _ _ => rfl
    · rw [hx]
      exact { hb with parent := rfl }
    · rw [hx] at hp
      cases hp
  · exact (h.fits i).same (setScope_ne _ _ _ hij) (Nat.le_refl _) (fun p => by rw [hk]) fun _ _ => rfl

theorem free_self (s : St E) (i : Nat) : (free s i).scopes i = {} := if_pos rfl

theorem free_other (s : St E) {k : Nat} (hk : k ≠ i) : (free s i).scopes k =
    { s.scopes k with scopes := (s.scopes k).scopes.erase i } := if_neg hk

theorem free_kids_sublist (s : St E) (i k : Nat) : ((free s i).kids k).Sublist (s.kids k) := by
  unfold St.kids
  by_cases hk : k = i
  · rw [hk, free_self]
    exact List.nil_sublist _
  · rw [free_other s hk]
    exact List.erase_sublist

theorem Tree.free (h : Tree s) {i : Nat} (hp : ∀ j, (s.scopes j).parent ≠ some i) : Tree (free s i) := by
  have hgone : ∀ p, i ∉ (Scopes.free s i).kids p := fun p hi => by
    unfold St.kids at hi
    by_cases hpi : p = i
    · rw [hpi, free_self] at hi
      cases hi
    · rw [free_other s hpi] at hi
      exact (h.forest.nodup p).not_mem_erase hi
  refine Tree.of_fits (h.forest.prune (free_kids_sublist s i)) h.unborn fun k => ?_
  by_cases hki : k = i
  · subst hki
    exact Fits.unused (free_self s k) hgone
  · have hx := free_other s hki
    refine (h.fits k).keep (Nat.le_refl _) (by rw [hx]) (fun p => ((free_kids_sublist s i p).subset ·)) (fun _ hb => ?_)
      (fun q hq => ?_) (by rw [hx]) (by rw [hx]) fun _ _ => rfl
    · rw [hx]
      exact { hb with scopes := by simp [hb.scopes] }
    · rw [hx] at hq
      refine ⟨hq, fun hkq => ?_⟩
      show k ∈ ((Scopes.free s i).scopes q).scopes
      rw [free_other s (show q ≠ i from fun h' => hp k (h' ▸ hq))]
      exact (List.mem_erase_of_ne hki).2 hkq

/-! ## Coroutines go -/

theorem setScope_same (s : St E) (i : Nat) : s.setScope i (s.scopes i) = s :=
  congrArg (fun f => { s with scopes := f }) (update_eq_self i s.scopes)

/-- The vector loses the coroutine, and the counters follow it. -/
theorem removeCoroutine_eq (s : St E) (i d : Nat) : ∃ n m,
    removeCoroutine s i d = s.setScope i { s.scopes i with
      coroutines := (s.scopes i).coroutines.erase d, active := n, zombies := m } ∧
    ((s.scopes i).coroutines.length ≤ (s.scopes i).active + (s.scopes i).zombies →
      ((s.scopes i).coroutines.erase d).length ≤ n + m) := by
  unfold removeCoroutine
  by_cases hd : d ∈ (s.scopes i).coroutines
  · have hlen := List.length_erase_of_mem hd
    rw [if_pos hd]
    split
    · rename_i hz
      have hpos : 0 < (s.scopes i).active := by simpa using (Bool.and_eq_true_iff.1 hz).2
      exact ⟨_, _, rfl, fun h => by omega⟩
    · exact ⟨_, _, rfl, fun h => by omega⟩
  · rw [if_neg hd, List.erase_of_not_mem hd]
    exact ⟨_, _, (setScope_same s i).symm, id⟩

theorem removeCoroutine_rest (s : St E) (i d : Nat) : (removeCoroutine s i d).coroutines = s.coroutines ∧
    (removeCoroutine s i d).calls = s.calls ∧ (removeCoroutine s i d).contexts = s.contexts ∧
    (removeCoroutine s i d).log = s.log := by
  obtain ⟨n, m, heq, -⟩ := removeCoroutine_eq s i d
  rw [heq]
  exact ⟨rfl, rfl, rfl, rfl⟩

theorem Tree.removeCoroutine (h : Tree s) (i d : Nat) : Tree (removeCoroutine s i d) := by
  obtain ⟨n, m, heq, hcount⟩ := removeCoroutine_eq s i d
  have hk : (s.setScope i { s.scopes i with
      coroutines := (s.scopes i).coroutines.erase d, active := n, zombies := m }).kids = s.kids := setScope_kids rfl
  rw [heq]
  refine Tree.of_fits (by rw [hk]; exact h.forest) h.unborn fun j => ?_
  by_cases hj : j = i
  · subst hj
    have hf := h.fits j
    constructor <;> simp only [hk, setScope_self]
    · exact hf.living
    · exact hf.kin
    · exact fun ha => { hf.blank ha with coroutines := by simp [(hf.blank ha).coroutines] }
    · exact hf.linked
    · exact fun c hc => hf.home c (List.mem_of_mem_erase hc)
    · exact hf.once.erase d
    · exact hcount hf.counted
  · exact (h.fits j).same (setScope_ne _ _ _ hj) (Nat.le_refl _) (fun p => by rw [hk]) fun _ _ => rfl

/-- Behind its removal a coroutine is in no vector. -/
theorem Tree.removed (h : Tree s) {d : Nat} (hd : (s.coroutines d).scope = some i) (j : Nat) :
    d ∉ ((Scopes.removeCoroutine s i d).scopes j).coroutines := by
  obtain ⟨n, m, heq, -⟩ := removeCoroutine_eq s i d
  rw [heq]
  intro hmem
  by_cases hj : j = i
  · subst hj
    rw [setScope_self] at hmem
    exact (h.once j).not_mem_erase hmem
  · rw [setScope_ne _ _ _ hj] at hmem
    exact hj (Option.some.inj ((h.home j d hmem).symm.trans hd))

end PhpAsync.L2.Scopes
