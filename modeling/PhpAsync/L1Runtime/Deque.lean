import Mathlib.Data.List.Basic
import PhpAsync.Core.LTS
import PhpAsync.L1Runtime.CircularBuffer

/-!
# The circular buffer as a double-ended queue

`internal/circular_buffer.c` and the inline pointer paths of its header: slots
addressed through a mask, growth in place or by copying, shrinking below a
threshold. `Holds b l` says that buffer `b` holds the values `l` from tail to
head; every operation is one lemma about it.

An item is one slot here. That is what the bytes of the block are for the generic
operations, for every item size, and for the pointer operations if an item has the
size of a pointer (`slotsOf_put`); with another one they write across items
(`pointer_push_destroys_item`). Sizes after the first are natural numbers: `Sized`
keeps the runs in which they fit in `size_t`.
-/
namespace PhpAsync.L1.CircularBuffer
open PhpAsync.Core

variable {α : Type}

/-- `circular_buffer_t`; `data` are the slots.
mirrors internal/circular_buffer.h:24-62 -/
structure Buffer (α : Type) where
  minSize : Nat
  capacity : Nat
  autoOptimize : Bool
  decreaseT : Nat
  data : Nat → α
  head : Nat
  tail : Nat

/-- mirrors internal/circular_buffer.c:142-147 -/
def nextIndex (index capacity : Nat) : Nat := (index + 1) &&& (capacity - 1)

/-- `memcpy` of `n` items to slot `off` of `dst` from slot `start` of `src`. -/
def memcpy (dst : Nat → α) (off : Nat) (src : Nat → α) (start n : Nat) : Nat → α := fun i =>
  if off ≤ i ∧ i < off + n then src (start + (i - off)) else dst i

def store (data : Nat → α) (slot : Nat) (v : α) : Nat → α := fun i => if i = slot then v else data i

namespace Buffer

/-- `circular_buffer_ctor`, if it returns; the allocator answers with a block, or `none`
for NULL.
mirrors internal/circular_buffer.c:96-128 -/
def ctor (count : Nat) (mem : Option (Nat → α)) : Option (Buffer α) :=
  (slots count).bind fun n => mem.map fun data =>
    { minSize := n, capacity := n, autoOptimize := true, decreaseT := if 4 < n then n / 2 - n / 4 else 0
      data, head := 0, tail := 0 }

/-- mirrors internal/circular_buffer.c:499-503 -/
def isEmpty (b : Buffer α) : Bool := b.head == b.tail

/-- mirrors internal/circular_buffer.c:510-515 -/
def isFull (b : Buffer α) : Bool := nextIndex b.head b.capacity == b.tail

/-- mirrors internal/circular_buffer.c:520-553 -/
def count (b : Buffer α) : Nat :=
  if b.capacity = 0 then 0
  else if b.tail ≤ b.head then b.head - b.tail else b.capacity - b.tail + b.head

/-- mirrors internal/circular_buffer.c:152-156 -/
def shouldDecrease (b : Buffer α) : Bool := b.autoOptimize && !b.isEmpty && decide (b.count < b.decreaseT)

/-- The new block in place of the old one, with `recalc_decrease_threshold`.
mirrors internal/circular_buffer.c:161-164 -/
def resized (b : Buffer α) (newCount : Nat) (data : Nat → α) (head tail : Nat) : Buffer α :=
  { b with
    capacity := newCount, data, head, tail
    decreaseT := if newCount ≤ b.minSize then 0 else newCount / 2 - newCount / 4 }

/-- The size `circular_buffer_realloc(buffer, 0)` chooses.
mirrors internal/circular_buffer.c:178-190 -/
def newCount (b : Buffer α) : Option Nat :=
  if b.isFull then some (b.capacity * 2)
  else if b.shouldDecrease then some (max (b.capacity / 2) b.minSize)
  else none

/-- A copy to a block of `n` slots, and how many items it copies; `circular_buffer_realloc`
behind the choice of the size.
mirrors internal/circular_buffer.c:207-328 -/
def reallocTo (b : Buffer α) (n : Nat) (new : Nat → α) : Nat × Buffer α :=
  if b.isEmpty then (0, b.resized n new 0 0)
  else if b.tail ≤ b.head then
    if b.capacity < n then (b.capacity, b.resized n (memcpy new 0 b.data 0 b.capacity) b.head b.tail)
    else (b.count, b.resized n (memcpy new 0 b.data b.tail b.count) b.count 0)
  else
    let first := b.capacity - b.tail
    (first + b.head, b.resized n (memcpy (memcpy new 0 b.data b.tail first) first b.data 0 b.head) b.count 0)

/-- `circular_buffer_realloc(buffer, 0)`: success, and the buffer.
mirrors internal/circular_buffer.c:169-330 -/
def realloc (b : Buffer α) (mem : Option (Nat → α)) : Bool × Buffer α :=
  match b.newCount, mem with
  | none, _ => (true, b)
  | some _, none => (false, b)
  | some n, some new => (true, (b.reallocTo n new).2)

/-- The resize both pushes begin with.
mirrors internal/circular_buffer.c:345-354, 400-410 -/
def fit (b : Buffer α) (mem : Option (Nat → α)) : Bool × Buffer α :=
  if b.isFull || b.shouldDecrease then b.realloc mem else (true, b)

/-- mirrors internal/circular_buffer.c:377-378 -/
def append (b : Buffer α) (v : α) : Buffer α :=
  { b with data := store b.data b.head v, head := nextIndex b.head b.capacity }

/-- mirrors internal/circular_buffer.c:335-383 -/
def push (b : Buffer α) (v : α) (shouldResize : Bool) (mem : Option (Nat → α)) : Bool × Buffer α :=
  if shouldResize then
    if (b.fit mem).1 then (true, (b.fit mem).2.append v) else (false, (b.fit mem).2)
  else if b.isFull then (false, b) else (true, b.append v)

/-- mirrors internal/circular_buffer.c:440-447 -/
def prepend (b : Buffer α) (v : α) : Buffer α :=
  let tail := if b.tail = 0 then b.capacity - 1 else b.tail - 1
  { b with tail, data := store b.data tail v }

/-- mirrors internal/circular_buffer.c:390-452 -/
def pushFront (b : Buffer α) (v : α) (shouldResize : Bool) (mem : Option (Nat → α)) : Bool × Buffer α :=
  let r := if shouldResize then b.fit mem else (true, b)
  if r.1 = false then (false, r.2)
  else if r.2.isFull then if shouldResize then (false, r.2) else r.2.push v false mem
  else (true, r.2.prepend v)

/-- The value, `none` for FAILURE.
mirrors internal/circular_buffer.c:457-494 -/
def pop (b : Buffer α) : Option α × Buffer α :=
  if b.isEmpty then (none, b) else (some (b.data b.tail), { b with tail := nextIndex b.tail b.capacity })

/-- mirrors internal/circular_buffer.h:91-94 -/
def clean (b : Buffer α) : Buffer α := { b with head := b.tail }

/-- mirrors internal/circular_buffer.h:97-107 -/
def pushPtr (b : Buffer α) (v : α) : Bool × Buffer α :=
  if (b.head + 1) &&& (b.capacity - 1) ≠ b.tail then
    (true, { b with data := store b.data b.head v, head := (b.head + 1) &&& (b.capacity - 1) })
  else (false, b)

/-- mirrors internal/circular_buffer.h:110-120 -/
def popPtr (b : Buffer α) : Option α × Buffer α :=
  if b.head ≠ b.tail then (some (b.data b.tail), { b with tail := (b.tail + 1) &&& (b.capacity - 1) })
  else (none, b)

/-- mirrors internal/circular_buffer.h:125-136 -/
def swapPtrAt (b : Buffer α) (i j : Nat) : Buffer α :=
  if i = j then b
  else
    let slotI := (b.tail + i) &&& (b.capacity - 1)
    let slotJ := (b.tail + j) &&& (b.capacity - 1)
    { b with data := store (store b.data slotI (b.data slotJ)) slotJ (b.data slotI) }

/-- mirrors internal/circular_buffer.h:139-148 -/
def pushPtrWithResize (b : Buffer α) (v : α) (mem : Option (Nat → α)) : Bool × Buffer α :=
  if (b.pushPtr v).1 then b.pushPtr v else (b.pushPtr v).2.push v true mem

/-- The values from tail to head. -/
def contents (b : Buffer α) : List α :=
  (List.range b.count).map fun i => b.data ((b.tail + i) % b.capacity)

end Buffer

/-- The operations; a push brings what the allocator would answer. -/
inductive Op (α : Type)
  | push (v : α) (shouldResize : Bool) (mem : Option (Nat → α))
  | pushFront (v : α) (shouldResize : Bool) (mem : Option (Nat → α))
  | pushPtr (v : α)
  | pushPtrWithResize (v : α) (mem : Option (Nat → α))
  | pop
  | popPtr
  | swapPtrAt (i j : Nat)
  | clean

/-- Success, the value popped, and the buffer. -/
def Buffer.exec (b : Buffer α) : Op α → Bool × Option α × Buffer α
  | .push v r mem => ((b.push v r mem).1, none, (b.push v r mem).2)
  | .pushFront v r mem => ((b.pushFront v r mem).1, none, (b.pushFront v r mem).2)
  | .pushPtr v => ((b.pushPtr v).1, none, (b.pushPtr v).2)
  | .pushPtrWithResize v mem => ((b.pushPtrWithResize v mem).1, none, (b.pushPtrWithResize v mem).2)
  | .pop => (b.pop.1.isSome, b.pop)
  | .popPtr => (b.popPtr.1.isSome, b.popPtr)
  | .swapPtrAt i j => (true, none, b.swapPtrAt i j)
  | .clean => (true, none, b.clean)

/-! ## The double-ended queue -/

/-- The operation on the list, and the value it takes out. -/
def Op.onList (l : List α) : Op α → Option α × List α
  | .push v _ _ | .pushPtr v | .pushPtrWithResize v _ => (none, l ++ [v])
  | .pushFront v _ _ => (none, v :: l)
  | .pop | .popPtr => (l.head?, l.tail)
  | .swapPtrAt i j =>
    match l[i]?, l[j]? with
    | some x, some y => (none, (l.set i y).set j x)
    | _, _ => (none, l)
  | .clean => (none, [])

/-- When the operation succeeds: a push that may resize whenever the allocator
has memory, one that may not while a slot is free, a pop while there is a
value. -/
def Op.Answers (l : List α) (capacity : Nat) (ok : Bool) : Op α → Prop
  | .push _ false _ | .pushFront _ false _ | .pushPtr _ => ok = decide (l.length + 1 < capacity)
  | .push _ true mem | .pushFront _ true mem | .pushPtrWithResize _ mem => mem.isSome = true → ok = true
  | .pop | .popPtr => ok = !l.isEmpty
  | .swapPtrAt _ _ | .clean => ok = true

/-- Indices are in range. -/
def Op.inRange (b : Buffer α) : Op α → Bool
  | .swapPtrAt i j => decide (i < b.count ∧ j < b.count)
  | _ => true

/-- A buffer and the list, operation by operation. -/
def step (w : Buffer α × List α) (op : Op α) : Option (Buffer α × List α) :=
  if op.inRange w.1 then
    some ((w.1.exec op).2.2, if (w.1.exec op).1 then (op.onList w.2).2 else w.2)
  else none

def deque (α : Type) : LTS (Buffer α × List α) (Op α) :=
  .ofFn (fun w => (∃ count mem, Buffer.ctor count mem = some w.1) ∧ w.2 = []) step

/-- The block has a size in bytes, also the one that a push may ask for, and pointer operations
are for items of 8 bytes. -/
def Sized (itemSize : Nat) (w : Buffer α × List α) (op : Op α) : Prop :=
  w.1.capacity * itemSize < 2 ^ 64 ∧
    match op with
    | .push _ true _ | .pushFront _ true _ => w.1.capacity * 2 * itemSize < 2 ^ 64
    | .pushPtr _ | .popPtr | .swapPtrAt _ _ => itemSize = 8
    | .pushPtrWithResize _ _ => itemSize = 8 ∧ w.1.capacity * 2 * itemSize < 2 ^ 64
    | _ => True

variable {n : Nat}

/-! ## Arithmetic -/

/-- An index past the end wraps once. -/
theorem wrap {t c : Nat} (ht : t < c) (hn : n ≤ c) : (t + n) % c = if t + n < c then t + n else t + n - c := by
  split
  next h => exact Nat.mod_eq_of_lt h
  next h => rw [Nat.mod_eq_sub_mod (by omega), Nat.mod_eq_of_lt (by omega)]

/-- `power` is a power of two, or has been shifted out; then the loop does not end. -/
theorem isPowerOfTwo_shiftUpTo {n m : Nat} (hn : n ≠ 0) : ∀ {rounds power : Nat},
    power = 0 ∨ power.isPowerOfTwo → shiftUpTo n rounds power = some m → m.isPowerOfTwo
  | 0, _, _, h => nomatch h
  | rounds + 1, power, hp, h => by
    unfold shiftUpTo at h
    split at h
    · refine isPowerOfTwo_shiftUpTo hn ?_ h
      rcases hp with rfl | ⟨k, rfl⟩
      · exact .inl rfl
      · rw [← Nat.pow_succ]
        by_cases hk : k + 1 < 64
        · rw [Nat.mod_eq_of_lt (Nat.pow_lt_pow_right (by omega) hk)]
          exact .inr ⟨k + 1, rfl⟩
        · exact .inl (Nat.mod_eq_zero_of_dvd (Nat.pow_dvd_pow 2 (by omega)))
    · cases h
      exact hp.resolve_left (by omega)

theorem isPowerOfTwo_roundUpToPowerOf2 {n m : Nat} (h : roundUpToPowerOf2 n = some m) : m.isPowerOfTwo := by
  unfold roundUpToPowerOf2 at h
  split at h
  · cases h
    exact ⟨0, rfl⟩
  next h0 =>
    split at h
    next hp =>
      cases h
      exact (Nat.and_sub_one_eq_zero_iff_isPowerOfTwo h0).1 hp
    · exact isPowerOfTwo_shiftUpTo h0 (.inr ⟨0, rfl⟩) h

/-! ## What a buffer holds -/

/-- Buffer `b` holds `l` from tail to head. -/
structure Holds (b : Buffer α) (l : List α) : Prop where
  power : b.capacity.isPowerOfTwo
  minPower : b.minSize.isPowerOfTwo
  min_le : b.minSize ≤ b.capacity
  tail_lt : b.tail < b.capacity
  room : l.length < b.capacity
  head_eq : b.head = (b.tail + l.length) % b.capacity
  slot : ∀ i, i < l.length → l[i]? = some (b.data ((b.tail + i) % b.capacity))
  low : b.decreaseT ≤ b.capacity / 2 - b.capacity / 4

variable {b : Buffer α} {l : List α}

theorem Holds.ctor {count : Nat} {mem : Option (Nat → α)} (h : Buffer.ctor count mem = some b) : Holds b [] := by
  obtain ⟨n, hn, h⟩ := Option.bind_eq_some_iff.1 h
  obtain ⟨data, rfl, rfl⟩ := Option.map_eq_some_iff.1 h
  obtain ⟨k, hk⟩ := isPowerOfTwo_roundUpToPowerOf2 hn
  have := Nat.two_pow_pos k
  refine ⟨⟨k, hk⟩, ⟨k, hk⟩, Nat.le_refl _, ?_, ?_, ?_, nofun, ?_⟩ <;> simp only [List.length_nil]
  · omega
  · omega
  · simp
  · split <;> omega

theorem Holds.head_lt (h : Holds b l) : b.head < b.capacity := by
  rw [h.head_eq]
  exact Nat.mod_lt _ (Nat.lt_of_le_of_lt (Nat.zero_le _) h.tail_lt)

theorem Holds.mask (h : Holds b l) (x : Nat) : x &&& (b.capacity - 1) = x % b.capacity := by
  obtain ⟨k, hk⟩ := h.power
  rw [hk, Nat.and_two_pow_sub_one_eq_mod]

theorem Holds.head_wrap (h : Holds b l) :
    b.head = if b.tail + l.length < b.capacity then b.tail + l.length else b.tail + l.length - b.capacity := by
  rw [h.head_eq, wrap h.tail_lt (Nat.le_of_lt h.room)]

theorem Holds.count_eq (h : Holds b l) : b.count = l.length := by
  have hw := h.head_wrap
  have := h.tail_lt
  have := h.room
  unfold Buffer.count
  split at hw <;> split <;> (try split) <;> omega

theorem Holds.isEmpty_iff (h : Holds b l) : b.isEmpty = true ↔ l.length = 0 := by
  have hw := h.head_wrap
  have := h.tail_lt
  have := h.room
  simp only [Buffer.isEmpty, beq_iff_eq]
  split at hw <;> omega

theorem Holds.next_eq (h : Holds b l) : nextIndex b.head b.capacity = (b.tail + (l.length + 1)) % b.capacity := by
  rw [nextIndex, h.mask, h.head_eq, Nat.mod_add_mod, Nat.add_assoc]

theorem Holds.isFull_iff (h : Holds b l) : b.isFull = true ↔ l.length + 1 = b.capacity := by
  have := h.tail_lt
  have := h.room
  simp only [Buffer.isFull, beq_iff_eq, h.next_eq, wrap h.tail_lt (Nat.succ_le_of_lt h.room)]
  split <;> omega

theorem Holds.contents_eq (h : Holds b l) : b.contents = l := by
  refine List.ext_getElem? fun i => ?_
  simp only [Buffer.contents, h.count_eq, List.getElem?_map]
  by_cases hi : i < l.length
  · rw [List.getElem?_range hi, h.slot i hi, Option.map_some]
  · rw [List.getElem?_eq_none (by simpa using hi), List.getElem?_eq_none (by omega), Option.map_none]

/-! ## Reallocation -/

/-- A new block that has the values from `t` on. -/
theorem Holds.resized (h : Holds b l) {t : Nat} {d : Nat → α} (hp : n.isPowerOfTwo) (hm : b.minSize ≤ n)
    (ht : t < n) (hl : l.length < n)
    (hd : ∀ i, i < l.length → d ((t + i) % n) = b.data ((b.tail + i) % b.capacity)) {hd' : Nat}
    (hh : hd' = (t + l.length) % n) : Holds (b.resized n d hd' t) l where
  power := hp
  minPower := h.minPower
  min_le := hm
  tail_lt := ht
  room := hl
  head_eq := hh
  slot i hi := by rw [h.slot i hi]; exact congrArg some (hd i hi).symm
  low := by
    show (if n ≤ b.minSize then 0 else n / 2 - n / 4) ≤ n / 2 - n / 4
    split <;> omega

/-- A new block that has the values from its start on. -/
theorem Holds.moved (h : Holds b l) {d : Nat → α} (hp : n.isPowerOfTwo) (hm : b.minSize ≤ n)
    (hl : l.length < n) (hd : ∀ i, i < l.length → d i = b.data ((b.tail + i) % b.capacity)) :
    Holds (b.resized n d b.count 0) l := by
  refine h.resized hp hm (by omega) hl (fun i hi => ?_) ?_
  · rw [Nat.zero_add, Nat.mod_eq_of_lt (by omega), hd i hi]
  · rw [Nat.zero_add, Nat.mod_eq_of_lt hl, h.count_eq]

/-- The size chosen is a power of two with room for one more value. -/
theorem Holds.newCount (h : Holds b l) (hn : b.newCount = some n) :
    n.isPowerOfTwo ∧ b.minSize ≤ n ∧ l.length + 1 < n := by
  obtain ⟨k, hk⟩ := h.power
  have hmin := h.min_le
  have hroom := h.room
  unfold Buffer.newCount at hn
  split at hn
  next hf =>
    cases hn
    rw [h.isFull_iff] at hf
    exact ⟨⟨k + 1, by rw [hk, Nat.pow_succ]⟩, by omega, by omega⟩
  next hf =>
    split at hn
    next hs =>
      cases hn
      simp only [Buffer.shouldDecrease, Bool.and_eq_true, Bool.not_eq_true', decide_eq_true_eq, h.count_eq] at hs
      have hne : ¬ l.length = 0 := fun h0 => by rw [(h.isEmpty_iff).2 h0] at hs; exact nomatch hs.1.2
      have hlow := h.low
      refine ⟨?_, Nat.le_max_right .., ?_⟩
      · rcases Nat.le_total (b.capacity / 2) b.minSize with hle | hle
        · rw [Nat.max_eq_right hle]
          exact h.minPower
        · rw [Nat.max_eq_left hle]
          cases k with
          | zero => simp only [hk, Nat.pow_zero] at hlow; omega
          | succ k => exact ⟨k, by rw [hk, Nat.pow_succ, Nat.mul_div_cancel _ (by omega)]⟩
      · exact Nat.lt_of_lt_of_le (by omega) (Nat.le_max_left ..)
    · exact nomatch hn

theorem reallocTo_capacity (b : Buffer α) (n : Nat) (new : Nat → α) : (b.reallocTo n new).2.capacity = n := by
  unfold Buffer.reallocTo
  split
  · rfl
  split
  · split <;> rfl
  · rfl

/-- With room for them the values are kept, and no more is copied than there are slots. -/
theorem Holds.reallocTo (h : Holds b l) (hp : n.isPowerOfTwo) (hm : b.minSize ≤ n) (hl : l.length < n)
    (new : Nat → α) : Holds (b.reallocTo n new).2 l ∧ (b.reallocTo n new).1 ≤ n := by
  have hw := h.head_wrap
  have ht := h.tail_lt
  have hroom := h.room
  unfold Buffer.reallocTo
  split
  next he =>
    have h0 := h.isEmpty_iff.1 he
    refine ⟨h.resized hp hm (by omega) hl (fun i hi => by omega) ?_, Nat.zero_le _⟩
    rw [h0, Nat.zero_mod]
  next =>
    split
    next hle =>
      -- linear order: the last value lies before the head
      have hlin : b.tail + l.length < b.capacity := by split at hw <;> omega
      split
      next hgrow =>
        refine ⟨h.resized hp hm (by omega) hl (fun i hi => ?_) ?_, Nat.le_of_lt hgrow⟩
        · rw [Nat.mod_eq_of_lt (by omega), Nat.mod_eq_of_lt (by omega), memcpy, if_pos (by omega)]
          congr 1; omega
        · rw [h.head_eq, Nat.mod_eq_of_lt hlin, Nat.mod_eq_of_lt (by omega)]
      next =>
        refine ⟨h.moved hp hm hl fun i hi => ?_, by rw [h.count_eq]; omega⟩
        rw [Nat.mod_eq_of_lt (by omega), memcpy, h.count_eq, if_pos (by omega), Nat.sub_zero]
    next hgt =>
      -- wrapped order: two parts
      have hwr : ¬ b.tail + l.length < b.capacity := fun hlt => by rw [if_pos hlt] at hw; omega
      rw [if_neg hwr] at hw
      refine ⟨h.moved hp hm hl fun i hi => ?_, by dsimp only; omega⟩
      rw [wrap ht (by omega)]
      simp only [memcpy]
      split
      next hi' => rw [if_neg (by omega)]; congr 1; omega
      next hi' => rw [if_pos (by omega), if_pos (by omega)]; congr 1

/-- The resize keeps the values and makes room for one more; it fails only
with the allocator, and then changes nothing. -/
theorem Holds.fit (h : Holds b l) (mem : Option (Nat → α)) :
    (mem = none ∧ b.fit mem = (false, b)) ∨
      ∃ b', b.fit mem = (true, b') ∧ Holds b' l ∧ l.length + 1 < b'.capacity := by
  have hroom := h.room
  unfold Buffer.fit
  split
  next hn =>
    cases hc : b.newCount with
    | none =>
      unfold Buffer.newCount at hc
      split at hc
      · exact nomatch hc
      · simp_all
    | some n =>
      obtain ⟨hp, hm, hl⟩ := h.newCount hc
      cases mem with
      | none =>
        unfold Buffer.realloc
        rw [hc]
        exact .inl ⟨rfl, rfl⟩
      | some new =>
        refine .inr ⟨_, by unfold Buffer.realloc; rw [hc], (h.reallocTo hp hm (by omega) new).1, ?_⟩
        rwa [reallocTo_capacity]
  next hn =>
    have hf : ¬ l.length + 1 = b.capacity := fun hf => hn (by simp [h.isFull_iff.2 hf])
    exact .inr ⟨b, rfl, h, by omega⟩

/-! ## The operations -/

theorem Holds.append (h : Holds b l) (hr : l.length + 1 < b.capacity) (v : α) : Holds (b.append v) (l ++ [v]) where
  power := h.power
  minPower := h.minPower
  min_le := h.min_le
  tail_lt := h.tail_lt
  room := by simpa [Buffer.append] using hr
  head_eq := by simpa [Buffer.append] using h.next_eq
  low := h.low
  slot i hi := by
    have ht := h.tail_lt
    have hw := h.head_wrap
    simp only [List.length_append, List.length_singleton] at hi
    simp only [Buffer.append, store]
    by_cases hi' : i < l.length
    · rw [List.getElem?_append_left hi', h.slot i hi', if_neg]
      rw [wrap ht (by omega)]
      split at hw <;> split <;> omega
    · obtain rfl : i = l.length := by omega
      rw [if_pos h.head_eq.symm]
      simp

theorem Holds.prepend (h : Holds b l) (hr : l.length + 1 < b.capacity) (v : α) : Holds (b.prepend v) (v :: l) := by
  have ht := h.tail_lt
  have hw := h.head_wrap
  -- one step on from the new tail is the old one
  have hnext : ∀ i, i ≤ l.length → ((b.prepend v).tail + (i + 1)) % b.capacity = (b.tail + i) % b.capacity := by
    intro i hi
    simp only [Buffer.prepend]
    split
    next h0 => rw [show b.capacity - 1 + (i + 1) = b.tail + i + b.capacity by omega, Nat.add_mod_right]
    next h0 => rw [show b.tail - 1 + (i + 1) = b.tail + i by omega]
  have hlt : (b.prepend v).tail < b.capacity := by simp only [Buffer.prepend]; split <;> omega
  refine ⟨h.power, h.minPower, h.min_le, hlt, hr, ?_, ?_, h.low⟩
  · exact h.head_eq.trans (hnext l.length (Nat.le_refl _)).symm
  · intro i hi
    show _ = some (store b.data (b.prepend v).tail v (((b.prepend v).tail + i) % b.capacity))
    cases i with
    | zero => rw [Nat.add_zero, Nat.mod_eq_of_lt hlt, store, if_pos rfl]; rfl
    | succ i =>
      have hi' : i < l.length := by simpa using hi
      have hd := wrap (n := i + 1) hlt (by omega)
      rw [List.getElem?_cons_succ, h.slot i hi', ← hnext i (Nat.le_of_lt hi'), store, if_neg]
      split at hd <;> omega

theorem Holds.pop (h : Holds b l) (hne : l.length ≠ 0) :
    l.head? = some (b.data b.tail) ∧ Holds { b with tail := nextIndex b.tail b.capacity } l.tail := by
  have ht := h.tail_lt
  have hroom := h.room
  have hslot := h.slot 0 (by omega)
  have hlen : l.tail.length = l.length - 1 := List.length_tail
  have hnext : ∀ i, (nextIndex b.tail b.capacity + i) % b.capacity = (b.tail + (i + 1)) % b.capacity := by
    intro i
    rw [nextIndex, h.mask, Nat.mod_add_mod, Nat.add_assoc, Nat.add_comm 1]
  rw [Nat.add_zero, Nat.mod_eq_of_lt ht] at hslot
  refine ⟨by rw [← hslot, List.head?_eq_getElem?], h.power, h.minPower, h.min_le, ?_,
    hlen ▸ Nat.lt_of_le_of_lt (Nat.sub_le ..) hroom, ?_, ?_, h.low⟩
  · show nextIndex b.tail b.capacity < b.capacity
    rw [nextIndex, h.mask]
    exact Nat.mod_lt _ (by omega)
  · show b.head = (nextIndex b.tail b.capacity + l.tail.length) % b.capacity
    rw [hnext, hlen, h.head_eq, Nat.sub_add_cancel (by omega)]
  · intro i hi
    rw [hnext, List.getElem?_tail, h.slot (i + 1) (by omega)]

theorem Holds.slot_ne (h : Holds b l) {i j : Nat} (hi : i < l.length) (hj : j < l.length) (hne : i ≠ j) :
    (b.tail + i) % b.capacity ≠ (b.tail + j) % b.capacity := by
  have ht := h.tail_lt
  have hroom := h.room
  rw [wrap ht (by omega), wrap ht (by omega)]
  split <;> split <;> omega

theorem Holds.swapPtrAt (h : Holds b l) {i j : Nat} (hi : i < l.length) (hj : j < l.length) :
    Holds (b.swapPtrAt i j) ((Op.swapPtrAt i j).onList l).2 := by
  unfold Buffer.swapPtrAt
  simp only [Op.onList, h.slot i hi, h.slot j hj, h.mask]
  split
  next hij =>
    subst hij
    obtain ⟨_, he⟩ := List.getElem?_eq_some_iff.1 (h.slot i hi)
    rw [List.set_set, ← he, List.set_getElem_self]
    exact h
  next hij =>
    refine ⟨h.power, h.minPower, h.min_le, h.tail_lt, by simpa using h.room, by simpa using h.head_eq, ?_, h.low⟩
    intro k hk
    rw [List.length_set, List.length_set] at hk
    simp only [store, List.getElem?_set, List.length_set]
    by_cases hkj : j = k
    · subst hkj
      simp [hj]
    · rw [if_neg hkj, if_neg (h.slot_ne hk hj (Ne.symm hkj))]
      by_cases hki : i = k
      · subst hki
        simp [hi]
      · rw [if_neg hki, if_neg (h.slot_ne hk hi (Ne.symm hki)), h.slot k hk]

/-- What an operation does: it succeeds as on the list, or fails and leaves
the buffer alone. -/
inductive Served (b : Buffer α) (l : List α) (op : Op α) : Bool × Option α × Buffer α → Prop
  | done {b' : Buffer α} (h : Holds b' (op.onList l).2) (ha : op.Answers l b.capacity true) :
      Served b l op (true, (op.onList l).1, b')
  | refused (ha : op.Answers l b.capacity false) : Served b l op (false, none, b)

theorem Served.as {op op' : Op α} {r : Bool × Option α × Buffer α} (h : Served b l op r)
    (ho : op.onList l = op'.onList l)
    (ha : ∀ ok, op.Answers l b.capacity ok → op'.Answers l b.capacity ok) : Served b l op' r := by
  cases h with
  | done hb hk =>
    rw [ho] at hb ⊢
    exact .done hb (ha _ hk)
  | refused hk => exact .refused (ha _ hk)

theorem Holds.served_push (h : Holds b l) (v : α) (r : Bool) (mem : Option (Nat → α)) :
    Served b l (.push v r mem) ((b.push v r mem).1, none, (b.push v r mem).2) := by
  have hroom := h.room
  unfold Buffer.push
  cases r with
  | true =>
    obtain ⟨rfl, hf⟩ | ⟨b', hf, hb, hr⟩ := h.fit mem <;> simp only [hf, if_true, if_false, Bool.false_eq_true]
    · exact .refused nofun
    · exact .done (hb.append hr v) fun _ => rfl
  | false =>
    rw [if_neg Bool.false_ne_true]
    split
    next hf =>
      rw [h.isFull_iff] at hf
      exact .refused (by simp [Op.Answers]; omega)
    next hf =>
      rw [h.isFull_iff] at hf
      exact .done (h.append (by omega) v) (by simp [Op.Answers]; omega)

theorem Holds.served_pushFront (h : Holds b l) (v : α) (r : Bool) (mem : Option (Nat → α)) :
    Served b l (.pushFront v r mem) ((b.pushFront v r mem).1, none, (b.pushFront v r mem).2) := by
  have hroom := h.room
  unfold Buffer.pushFront
  cases r with
  | true =>
    obtain ⟨rfl, hf⟩ | ⟨b', hf, hb, hr⟩ := h.fit mem <;> simp only [hf, if_true]
    · exact .refused nofun
    · rw [if_neg nofun, if_neg (fun hf' => by rw [hb.isFull_iff] at hf'; omega)]
      exact .done (hb.prepend hr v) fun _ => rfl
  | false =>
    simp only [Bool.false_eq_true, if_false]
    rw [if_neg nofun]
    split
    next hf =>
      simp only [Buffer.push, hf, if_true, if_false, Bool.false_eq_true]
      rw [h.isFull_iff] at hf
      exact .refused (by simp [Op.Answers]; omega)
    next hf =>
      rw [h.isFull_iff] at hf
      exact .done (h.prepend (by omega) v) (by simp [Op.Answers]; omega)

/-- The pointer push is a push without resize. -/
theorem pushPtr_eq (b : Buffer α) (v : α) : b.pushPtr v = b.push v false none := by
  simp only [Buffer.pushPtr, Buffer.push, Buffer.isFull, nextIndex, beq_iff_eq, Bool.false_eq_true, if_false, ne_eq,
    ite_not]
  rfl

theorem popPtr_eq (b : Buffer α) : b.popPtr = b.pop := by
  simp only [Buffer.popPtr, Buffer.pop, Buffer.isEmpty, beq_iff_eq, ne_eq, ite_not]
  rfl

theorem Holds.served_pop (h : Holds b l) : Served b l .pop (b.pop.1.isSome, b.pop) := by
  unfold Buffer.pop
  split
  next he =>
    have h0 := h.isEmpty_iff.1 he
    exact .refused (by simp [Op.Answers, List.length_eq_zero_iff.1 h0])
  next he =>
    rw [h.isEmpty_iff] at he
    obtain ⟨hh, ht⟩ := h.pop he
    rw [← hh]
    have hs : l.head?.isSome = true := by rw [hh]; rfl
    rw [hs]
    exact .done ht (by simp [Op.Answers, List.length_eq_zero_iff] at he ⊢; exact he)

/-- **Every operation is the one on lists**, or fails and changes nothing. -/
theorem Holds.served (h : Holds b l) (op : Op α) (hin : op.inRange b = true) : Served b l op (b.exec op) := by
  have hroom := h.room
  cases op with
  | push v r mem => exact h.served_push v r mem
  | pushFront v r mem => exact h.served_pushFront v r mem
  | pushPtr v =>
    simp only [Buffer.exec, pushPtr_eq]
    exact (h.served_push v false none).as rfl fun _ => id
  | pushPtrWithResize v mem =>
    simp only [Buffer.exec, Buffer.pushPtrWithResize, pushPtr_eq]
    cases hf : b.isFull with
    | true =>
      simp only [Buffer.push.eq_def b v false, hf, Bool.false_eq_true, if_true, if_false]
      exact (h.served_push v true mem).as rfl fun _ => id
    | false =>
      simp only [Buffer.push, hf, Bool.false_eq_true, if_true, if_false]
      have hf' : ¬ l.length + 1 = b.capacity := fun hl => by rw [h.isFull_iff.2 hl] at hf; exact nomatch hf
      exact .done (h.append (by omega) v) fun _ => rfl
  | pop => exact h.served_pop
  | popPtr =>
    simp only [Buffer.exec, popPtr_eq]
    exact h.served_pop.as rfl fun _ => id
  | swapPtrAt i j =>
    simp only [Op.inRange, h.count_eq, decide_eq_true_eq] at hin
    have hv : ((Op.swapPtrAt i j).onList l).1 = none := by simp only [Op.onList]; split <;> rfl
    simp only [Buffer.exec]
    rw [← hv]
    exact .done (h.swapPtrAt hin.1 hin.2) rfl
  | clean =>
    refine .done ⟨h.power, h.minPower, h.min_le, h.tail_lt, ?_, ?_, nofun, h.low⟩ rfl
    · exact Nat.lt_of_le_of_lt (Nat.zero_le _) hroom
    · exact (Nat.mod_eq_of_lt h.tail_lt).symm

theorem deque_inductive : (deque α).Inductive fun w => Holds w.1 w.2 where
  init w hw := by
    obtain ⟨⟨count, mem, hb⟩, hl⟩ := hw
    rw [hl]
    exact .ctor hb
  step w op w' hw hs := by
    obtain ⟨hin, ⟨⟩⟩ := Option.ite_none_right_eq_some.1 hs
    have := hw.served op hin
    generalize w.1.exec op = r at this ⊢
    cases this with
    | done hb _ => exact hb
    | refused _ => exact hw

/-- **The circular buffer is a double-ended queue.** After any operations that fit the item
size, the values from tail to head are those of the list, the bounds hold, and the next
operation answers as the list does or fails without touching the buffer. -/
theorem buffer_refines_deque (itemSize : Nat) (w : Buffer α × List α)
    (hr : ((deque α).restrict (Sized itemSize)).Reachable w) :
    w.1.contents = w.2 ∧ w.1.capacity.isPowerOfTwo ∧ w.1.minSize ≤ w.1.capacity ∧
      w.1.head < w.1.capacity ∧ w.1.tail < w.1.capacity ∧
      w.1.count = w.2.length ∧ w.1.count ≤ w.1.capacity - 1 ∧
      ∀ op : Op α, op.inRange w.1 = true → Sized itemSize w op →
        op.Answers w.2 w.1.capacity (w.1.exec op).1 ∧
        ((w.1.exec op).1 = true →
          (w.1.exec op).2.1 = (op.onList w.2).1 ∧ (w.1.exec op).2.2.contents = (op.onList w.2).2) ∧
        ((w.1.exec op).1 = false → (w.1.exec op).2 = (none, w.1)) := by
  have h := deque_inductive.reachable w hr.of_restrict
  have hroom := h.room
  refine ⟨h.contents_eq, h.power, h.min_le, h.head_lt, h.tail_lt, h.count_eq, ?_, fun op hin _ => ?_⟩
  · rw [h.count_eq]
    omega
  · have := h.served op hin
    generalize w.1.exec op = r at this ⊢
    cases this with
    | done hb ha => exact ⟨ha, fun _ => ⟨rfl, hb.contents_eq⟩, nofun⟩
    | refused ha => exact ⟨ha, nofun, fun _ => rfl⟩

instance (itemSize : Nat) (w : Buffer α × List α) (op : Op α) : Decidable (Sized itemSize w op) := by
  unfold Sized
  refine @instDecidableAnd _ _ _ ?_
  split <;> infer_instance

theorem buffer_refines_deque_three : ∃ w : Buffer Nat × List Nat,
    ((deque Nat).restrict (Sized 8)).Reachable w ∧ w.2 = [7, 3, 9] ∧ w.1.contents = w.2 := by
  obtain ⟨w, hr, hw⟩ := LTS.exists_of_execG (f := step) (P := fun w : Buffer Nat × List Nat => w.2 = [7, 3, 9])
    (G := Sized 8) (show (deque Nat).init (⟨2, 2, true, 0, fun _ => 0, 0, 0⟩, []) from ⟨⟨2, some fun _ => 0, rfl⟩, rfl⟩)
    [.push 3 true none, .pushFront 7 false none, .pushFront 7 true (some fun _ => 1), .pushPtr 9] (by decide)
  exact ⟨w, hr, hw, (buffer_refines_deque 8 w hr).1⟩

/-! ## Bytes -/

/-- Bytes written at an address. -/
def put (mem : Nat → UInt8) (addr : Nat) (v : List UInt8) : Nat → UInt8 := fun x =>
  if addr ≤ x ∧ x < addr + v.length then v.getD (x - addr) 0 else mem x

/-- The items of a block of bytes. -/
def slotsOf (itemSize : Nat) (mem : Nat → UInt8) : Nat → List UInt8 := fun i =>
  (List.range itemSize).map fun k => mem (i * itemSize + k)

/-- An item written where the slot `i` begins is stored in that slot, and in no other. -/
theorem slotsOf_put (mem : Nat → UInt8) (i : Nat) (v : List UInt8) :
    slotsOf v.length (put mem (i * v.length) v) = store (slotsOf v.length mem) i v := by
  funext j
  unfold store slotsOf
  split
  next hj =>
    subst hj
    exact List.ext_getElem (by simp) fun k _ hk => by simp [put, hk]
  next hj =>
    refine List.map_congr_left fun k hk => if_neg ?_
    rw [List.mem_range] at hk
    rcases Nat.lt_or_gt_of_ne hj with h | h <;> have := Nat.mul_le_mul_right v.length h <;>
      rw [Nat.succ_mul] at this <;> omega

/-- `circular_buffer_push` with a free slot, on bytes.
mirrors internal/circular_buffer.c:377-378 -/
def Buffer.pushBytes (b : Buffer UInt8) (itemSize : Nat) (v : List UInt8) : Buffer UInt8 :=
  { b with data := put b.data (b.head * itemSize) v, head := nextIndex b.head b.capacity }

/-- `circular_buffer_push_ptr` with a free slot, on bytes.
mirrors internal/circular_buffer.h:102-103 -/
def Buffer.pushPtrBytes (b : Buffer UInt8) (ptr : List UInt8) : Buffer UInt8 :=
  { b with data := put b.data (b.head * 8) ptr, head := (b.head + 1) &&& (b.capacity - 1) }

/-- **Counterexample.** In a buffer of items of 16 bytes a pointer is pushed after an item: it is
written into the second half of the item. -/
theorem pointer_push_destroys_item : ∃ b : Buffer UInt8, Buffer.ctor 4 (some fun _ => 0) = some b ∧
    let b' := (b.pushBytes 16 (List.replicate 16 1)).pushPtrBytes (List.replicate 8 2)
    b'.count = 2 ∧
      slotsOf 16 b'.data b'.tail = List.replicate 8 1 ++ List.replicate 8 2 :=
  ⟨_, rfl, by decide +kernel⟩

end PhpAsync.L1.CircularBuffer
