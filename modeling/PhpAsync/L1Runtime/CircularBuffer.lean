import Mathlib.Algebra.Group.Nat.Defs

/-!
# Capacity of the circular buffer

`internal/circular_buffer.c` allocates a power of two of slots and keeps one
free to tell full from empty. Here: the rounding, and when a push that may not
resize is refused. The callers in this development hold the contents as a list.
-/
namespace PhpAsync.L1.CircularBuffer

/-- `while (power < n) power <<= 1` in `size_t`; `none` if it does not end. After 64 rounds
`power` is 0 and stays so. -/
def shiftUpTo (n : Nat) : Nat → Nat → Option Nat
  | 0, _ => none
  | rounds + 1, power => if power < n then shiftUpTo n rounds (power * 2 % 2 ^ 64) else some power

/-- In `size_t`.
mirrors internal/circular_buffer.c:26-39 -/
def roundUpToPowerOf2 (n : Nat) : Option Nat :=
  if n = 0 then some 1
  else if n &&& (n - 1) = 0 then some n
  else shiftUpTo n 65 1

/-- Slots allocated by `circular_buffer_ctor(&buffer, count, ..)`, which does not return
if the rounding does not end.
mirrors internal/circular_buffer.c:93-107 -/
def slots (count : Nat) : Option Nat := roundUpToPowerOf2 (if count = 0 then 4 else count)

/-- `circular_buffer_is_full` in a buffer of `slots` slots holding `count`
values.
mirrors internal/circular_buffer.c:510-515 -/
def isFull (slots : Option Nat) (count : Nat) : Bool := slots.any (· ≤ count + 1)

theorem le_shiftUpTo {n m : Nat} : ∀ {rounds power : Nat}, shiftUpTo n rounds power = some m → n ≤ m
  | 0, _, h => nomatch h
  | rounds + 1, power, h => by
    unfold shiftUpTo at h
    split at h
    · exact le_shiftUpTo h
    · cases h
      omega

theorem le_roundUpToPowerOf2 {n m : Nat} (h : roundUpToPowerOf2 n = some m) : n ≤ m := by
  unfold roundUpToPowerOf2 at h
  split at h
  · omega
  · split at h
    · cases h
      exact Nat.le_refl n
    · exact le_shiftUpTo h

/-- The loop ends for a size of at most 2⁶³. -/
theorem isSome_shiftUpTo {n : Nat} (hn : n ≤ 2 ^ 63) :
    ∀ {rounds k : Nat}, k ≤ 63 → 64 ≤ rounds + k → (shiftUpTo n rounds (2 ^ k)).isSome
  | 0, _, hk, h => by omega
  | rounds + 1, k, hk, h => by
    unfold shiftUpTo
    split
    next hlt =>
      have hk' : k < 63 := by
        refine Nat.lt_of_le_of_ne hk fun he => ?_
        rw [he] at hlt
        omega
      rw [← Nat.pow_succ, Nat.mod_eq_of_lt (Nat.pow_lt_pow_right (by omega) (by omega))]
      exact isSome_shiftUpTo hn hk' (by omega)
    · rfl

theorem isSome_slots {count : Nat} (h : count ≤ 2 ^ 63) : (slots count).isSome := by
  unfold slots
  generalize hn : (if count = 0 then 4 else count) = n
  have hle : n ≤ 2 ^ 63 := by split at hn <;> omega
  unfold roundUpToPowerOf2
  split
  · rfl
  · split
    · rfl
    · exact isSome_shiftUpTo hle (k := 0) (by omega) (by omega)

/-- A buffer built for `n + 1` values refuses no push while it holds fewer
than `n`. -/
theorem not_isFull {n count : Nat} (h : count < n) : isFull (slots (n + 1)) count = false := by
  unfold isFull slots
  rw [if_neg (Nat.succ_ne_zero n)]
  cases hs : roundUpToPowerOf2 (n + 1) with
  | none => rfl
  | some m =>
    have := le_roundUpToPowerOf2 hs
    simp only [Option.any_some, decide_eq_false_iff_not]
    omega

end PhpAsync.L1.CircularBuffer
