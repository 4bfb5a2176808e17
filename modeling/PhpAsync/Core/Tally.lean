import Mathlib.Algebra.BigOperators.Group.List.Basic
import Mathlib.Algebra.GroupWithZero.Nat

/-!
# Tallies

Calls in progress each owe something to a common account. `tally g l` is what
the calls `l` owe together when call `a` owes `g a`. A call that starts adds its
share, one that ends takes it away.
-/
namespace PhpAsync.Core

variable {α : Type}

def tally (g : α → Nat) (l : List α) : Nat := (l.map g).sum

@[simp] theorem tally_cons (g : α → Nat) (a : α) (l : List α) :
    tally g (a :: l) = g a + tally g l := by
  simp [tally]

theorem tally_erase [DecidableEq α] (g : α → Nat) {a : α} {l : List α} (h : a ∈ l) :
    tally g l = g a + tally g (l.erase a) := (List.sum_map_erase g h).symm

variable (g : α → Nat) {a b : α} {l : List α} {i : Nat}

theorem tally_append (l l' : List α) : tally g (l ++ l') = tally g l + tally g l' := by
  simp [tally]

theorem tally_singleton (a : α) : tally g [a] = g a := by
  simp [tally]

/-- One call's share changes. -/
theorem tally_set (h : l[i]? = some a) : tally g (l.set i b) + g a = tally g l + g b := by
  induction l generalizing i with
  | nil => cases h
  | cons x l ih =>
    cases i with
    | zero =>
      cases h
      simp only [List.set_cons_zero, tally_cons]
      omega
    | succ i =>
      have ih := ih h
      simp only [List.set_cons_succ, tally_cons]
      omega

theorem tally_congr {g g' : α → Nat} (h : ∀ a ∈ l, g a = g' a) : tally g l = tally g' l := by
  rw [tally, tally, List.map_congr_left h]

theorem le_tally (h : a ∈ l) : g a ≤ tally g l := by
  induction h with
  | head => simp
  | tail _ _ ih =>
    rw [tally_cons]
    omega

theorem exists_of_tally_pos (h : 0 < tally g l) : ∃ a ∈ l, 0 < g a := by
  refine Classical.byContradiction fun hn => ?_
  have h0 : ∀ a ∈ l, g a = 0 := fun a ha => Nat.eq_zero_of_not_pos fun hp => hn ⟨a, ha, hp⟩
  rw [tally_congr h0] at h
  simp [tally] at h

end PhpAsync.Core
