import Mathlib.Data.List.Basic
import Mathlib.Data.List.Perm.Basic

/-!
# Removal by swapping with the last element

`swapRemove l i` is `v[i] = v[--length]` on a vector. It keeps everything before
position `i`, and what stood last stands at `i` afterwards: `swapRemove_append`.
-/
namespace PhpAsync.Core

variable {α : Type}

def swapRemove (l : List α) (i : Nat) : List α :=
  match l.getLast? with
  | none => []
  | some x => (l.set i x).dropLast

/-- The last element in front. -/
def lastFirst (l : List α) : List α := l.getLast?.toList ++ l.dropLast

@[simp] theorem lastFirst_nil : lastFirst ([] : List α) = [] := rfl

@[simp] theorem lastFirst_concat (l : List α) (x : α) : lastFirst (l ++ [x]) = x :: l := by
  simp [lastFirst]

theorem lastFirst_perm (l : List α) : (lastFirst l).Perm l := by
  rcases List.eq_nil_or_concat l with rfl | ⟨l, x, rfl⟩
  · exact .refl _
  · rw [List.concat_eq_append, lastFirst_concat]
    exact (List.perm_append_singleton x l).symm

/-- What stands before `i` stays, and the last element comes to `i`. -/
theorem swapRemove_append (p t : List α) (x : α) :
    swapRemove (p ++ x :: t) p.length = p ++ lastFirst t := by
  unfold swapRemove
  rcases List.eq_nil_or_concat t with rfl | ⟨t, y, rfl⟩
  · rw [List.getLast?_concat]
    simp
  · rw [List.concat_eq_append, lastFirst_concat]
    have hlast : (p ++ x :: (t ++ [y])).getLast? = some y := by
      rw [← List.cons_append, ← List.append_assoc, List.getLast?_concat]
    rw [hlast]
    simp only [List.set_append_right _ _ (Nat.le_refl _), Nat.sub_self, List.set_cons_zero]
    rw [← List.cons_append, ← List.append_assoc, List.dropLast_concat]

variable {i : Nat} {l : List α} {x : α}

/-- A position of a list splits it. -/
theorem split_of_getElem? (h : l[i]? = some x) : ∃ p t, l = p ++ x :: t ∧ p.length = i := by
  obtain ⟨hi, hx⟩ := List.getElem?_eq_some_iff.1 h
  refine ⟨l.take i, l.drop (i + 1), ?_, by rw [List.length_take]; omega⟩
  rw [← hx, List.getElem_cons_drop, List.take_append_drop]

theorem swapRemove_perm (h : l[i]? = some x) : l.Perm (x :: swapRemove l i) := by
  obtain ⟨p, t, rfl, rfl⟩ := split_of_getElem? h
  rw [swapRemove_append]
  exact List.perm_middle.trans ((lastFirst_perm t).symm.append_left p |>.cons x)

theorem swapRemove_length (h : l[i]? = some x) : (swapRemove l i).length + 1 = l.length := by
  have := (swapRemove_perm h).length_eq
  rw [List.length_cons] at this
  omega

/-- Nothing moves below the position of the removed element. -/
theorem swapRemove_getElem? {j : Nat} (h : l[i]? = some x) (hj : j < i) : (swapRemove l i)[j]? = l[j]? := by
  obtain ⟨p, t, rfl, rfl⟩ := split_of_getElem? h
  rw [swapRemove_append, List.getElem?_append_left hj, List.getElem?_append_left hj]

end PhpAsync.Core
