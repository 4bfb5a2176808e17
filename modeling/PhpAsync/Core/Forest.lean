import Mathlib.Data.List.Nodup
import Mathlib.Logic.Function.Basic

/-!
# Forests given by child lists

Nodes are numbers, numbered in the order in which they are made: `kids i` lists the
children of `i`, all of them younger than `i`. `Within kids i d` says that `d` is `i` or
below it.

* `Within.comparable`: two nodes above the same node lie on one path.
* `Forest.disjoint`: the subtrees of two siblings are disjoint.
* `mem_below`: the subtree as a list, by a walk of bounded depth.
* `Forest.graft`, `Forest.prune`: a new leaf, and the removal of a node from all lists.
-/
namespace PhpAsync.Core

inductive Within (kids : Nat → List Nat) : Nat → Nat → Prop
  | refl (i : Nat) : Within kids i i
  | down {i j d : Nat} (h : j ∈ kids i) (hd : Within kids j d) : Within kids i d

/-- The first `n` nodes as a forest. -/
structure Forest (kids : Nat → List Nat) (n : Nat) : Prop where
  younger : ∀ i j, j ∈ kids i → i < j
  known : ∀ i j, j ∈ kids i → j < n
  nodup : ∀ i, (kids i).Nodup
  unique : ∀ i k j, j ∈ kids i → j ∈ kids k → i = k

variable {kids kids' : Nat → List Nat} {n : Nat}

/-! ## Paths -/

variable {a b d i j p : Nat}

theorem Within.child (h : j ∈ kids i) : Within kids i j := .down h (.refl j)

theorem Within.trans (h : Within kids a b) (h' : Within kids b d) : Within kids a d := by
  induction h with
  | refl => exact h'
  | down hj _ ih => exact .down hj (ih h')

/-- The same read from the other end. -/
theorem Within.last (h : Within kids i d) : i = d ∨ ∃ p, Within kids i p ∧ d ∈ kids p := by
  induction h with
  | refl => exact .inl rfl
  | @down i j d hj _ ih =>
    rcases ih with rfl | ⟨p, hp, hd⟩
    · exact .inr ⟨i, .refl i, hj⟩
    · exact .inr ⟨p, .down hj hp, hd⟩

theorem Within.le (hF : Forest kids n) (h : Within kids i d) : i ≤ d := by
  induction h with
  | refl => exact Nat.le_refl _
  | down hj _ ih => exact Nat.le_trans (Nat.le_of_lt (hF.younger _ _ hj)) ih

theorem Within.lt (hF : Forest kids n) (h : Within kids i d) (hi : i < n) : d < n := by
  induction h with
  | refl => exact hi
  | down hj _ ih => exact ih (hF.known _ _ hj)

theorem Within.comparable (hF : Forest kids n) (h : Within kids a d) (h' : Within kids b d) :
    Within kids a b ∨ Within kids b a := by
  induction h generalizing b with
  | refl => exact .inr h'
  | @down a j d hj hd ih =>
    rcases ih h' with hjb | hbj
    · exact .inl (.down hj hjb)
    · -- the last link into `j` comes from its one parent
      rcases hbj.last with rfl | ⟨p, hp, hjp⟩
      · exact .inl (.child hj)
      · rw [hF.unique a p j hj hjp]
        exact .inr hp

theorem Forest.disjoint (hF : Forest kids n) {k : Nat} (hj : j ∈ kids i) (hk : k ∈ kids i) (hne : j ≠ k)
    (hjd : Within kids j d) (hkd : Within kids k d) : False := by
  -- of two siblings none is within the other
  have key : ∀ a b, a ∈ kids i → b ∈ kids i → a ≠ b → ¬ Within kids a b := by
    intro a b ha hb hab hw
    rcases hw.last with rfl | ⟨p, hp, hbp⟩
    · exact hab rfl
    · rw [← hF.unique i p b hb hbp] at hp
      have := hp.le hF
      have := hF.younger _ _ ha
      omega
  rcases hjd.comparable hF hkd with h | h
  · exact key j k hj hk hne h
  · exact key k j hk hj hne.symm h

theorem Within.mono (h : ∀ p, kids p ⊆ kids' p) (hw : Within kids i d) : Within kids' i d := by
  induction hw with
  | refl => exact .refl _
  | down hj _ ih => exact .down (h _ hj) ih

/-! ## The subtree as a list -/

def below (kids : Nat → List Nat) : Nat → Nat → List Nat
  | 0, _ => []
  | fuel + 1, i => i :: (kids i).flatMap (below kids fuel)

theorem within_of_mem_below {fuel : Nat} (h : d ∈ below kids fuel i) : Within kids i d := by
  induction fuel generalizing i with
  | zero => cases h
  | succ fuel ih =>
    rcases List.mem_cons.1 h with rfl | h
    · exact .refl _
    · obtain ⟨j, hj, hd⟩ := List.mem_flatMap.1 h
      exact .down hj (ih hd)

theorem mem_below (hF : Forest kids n) (h : Within kids i d) : d ∈ below kids (n + 1) i := by
  suffices key : ∀ fuel, 0 < fuel → n ≤ fuel + i → d ∈ below kids fuel i from
    key (n + 1) (Nat.succ_pos _) (by omega)
  induction h with
  | refl i =>
    intro fuel hpos _
    obtain ⟨f, rfl⟩ := Nat.exists_eq_succ_of_ne_zero (Nat.ne_of_gt hpos)
    exact List.mem_cons_self
  | @down i j d hj _ ih =>
    intro fuel hpos hle
    obtain ⟨f, rfl⟩ := Nat.exists_eq_succ_of_ne_zero (Nat.ne_of_gt hpos)
    have hyoung := hF.younger i j hj
    have hknown := hF.known i j hj
    exact List.mem_cons_of_mem _ (List.mem_flatMap.2 ⟨j, hj, ih f (by omega) (by omega)⟩)

/-! ## A new leaf -/

/-- `n` becomes a child of `p`. -/
def graft (kids : Nat → List Nat) (p n : Nat) : Nat → List Nat :=
  Function.update kids p (kids p ++ [n])

theorem mem_graft (h : j ∈ graft kids p n i) : j ∈ kids i ∨ (i = p ∧ j = n) := by
  unfold graft at h
  by_cases hi : i = p
  · grind
  · rw [Function.update_of_ne hi] at h
    exact .inl h

theorem Forest.graft (hF : Forest kids n) (hp : p < n) : Forest (graft kids p n) (n + 1) where
  younger i j h := by
    rcases mem_graft h with h | ⟨rfl, rfl⟩
    · exact hF.younger i j h
    · exact hp
  known i j h := by
    rcases mem_graft h with h | ⟨rfl, rfl⟩
    · exact Nat.lt_succ_of_lt (hF.known i j h)
    · exact Nat.lt_succ_self _
  nodup i := by
    unfold Core.graft
    by_cases hi : i = p
    · subst hi
      rw [Function.update_self]
      refine List.nodup_append.2 ⟨hF.nodup i, List.nodup_singleton n, fun a ha b hb => ?_⟩
      rw [List.mem_singleton.1 hb]
      exact Nat.ne_of_lt (hF.known i a ha)
    · rw [Function.update_of_ne hi]
      exact hF.nodup i
  unique i k j hi hk := by
    rcases mem_graft hi with hi' | ⟨hi', hj⟩ <;> rcases mem_graft hk with hk' | ⟨hk', hj'⟩
    · exact hF.unique i k j hi' hk'
    · rw [hj'] at hi'
      exact absurd (hF.known _ _ hi') (Nat.lt_irrefl _)
    · rw [hj] at hk'
      exact absurd (hF.known _ _ hk') (Nat.lt_irrefl _)
    · rw [hi', hk']

theorem Forest.root (hF : Forest kids n) : Forest kids (n + 1) where
  younger := hF.younger
  known i j h := Nat.lt_succ_of_lt (hF.known i j h)
  nodup := hF.nodup
  unique := hF.unique

/-! ## Removal -/

/-- Lists that lost elements. -/
theorem Forest.prune (hF : Forest kids n) (h : ∀ i, (kids' i).Sublist (kids i)) :
    Forest kids' n where
  younger i j hj := hF.younger i j ((h i).subset hj)
  known i j hj := hF.known i j ((h i).subset hj)
  nodup i := (h i).nodup (hF.nodup i)
  unique i k j hi hk := hF.unique i k j ((h i).subset hi) ((h k).subset hk)

/-! ## Growth -/

/-- All that is new hangs on new nodes or behind the old children. -/
def Grown (n : Nat) (kids kids' : Nat → List Nat) : Prop :=
  ∀ i j, j ∈ kids' i → j < n → j ∈ kids i

theorem Grown.within {m : Nat} (h : Grown n kids kids') (hF : Forest kids' m) (hw : Within kids' i d) (hd : d < n) :
    Within kids i d := by
  induction hw with
  | refl => exact .refl _
  | @down i j d hj hjd ih =>
    exact .down (h i j hj (Nat.lt_of_le_of_lt (hjd.le hF) hd)) (ih hd)

end PhpAsync.Core
