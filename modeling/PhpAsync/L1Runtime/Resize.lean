import PhpAsync.L1Runtime.Deque

/-!
# Explicit resize of the circular buffer

`circular_buffer_realloc(buffer, new_count)` with a size of the caller's, between the
other operations. The size is rounded up in `size_t`; the block asked of the allocator
has `new_count * item_size` bytes, in `size_t` as well.

**Hypothesis (`Fits`, about the call and the buffer before it).** The allocator fails, or the
buffer holds fewer values than the rounded size, and that many items have a size in bytes. The
assertions compare the size with `min_size` only (`shrink_overruns_block`).

**Results.**
* `resize_is_safe`: the values are kept, the indices are in range, and what is copied
  fits in the block.
* `resize_breaks`: with no room for the values, `head` leaves the range.
-/
namespace PhpAsync.L1.CircularBuffer
open PhpAsync.Core

variable {α : Type}

/-- What a resize leaves: success, the buffer, the items copied, and the bytes asked of
the allocator. -/
structure Resize (α : Type) where
  ok : Bool
  buffer : Buffer α
  copied : Nat
  bytes : Nat

/-- `circular_buffer_realloc` with a size other than 0, for which see `Buffer.realloc`;
`none` if the rounding does not end or the assertion on the size fails. The allocator
answers with a block, or `none` for NULL.
mirrors internal/circular_buffer.c:192-329 -/
def Buffer.resize (b : Buffer α) (itemSize newCount : Nat) (mem : Option (Nat → α)) : Option (Resize α) :=
  match roundUpToPowerOf2 newCount with
  | none => none
  | some n =>
    if b.minSize ≤ n then
      match mem with
      | none => some ⟨false, b, 0, n * itemSize % 2 ^ 64⟩
      | some new => some ⟨true, (b.reallocTo n new).2, (b.reallocTo n new).1, n * itemSize % 2 ^ 64⟩
    else none

inductive Act (α : Type)
  | op (o : Op α)
  | resize (newCount : Nat) (mem : Option (Nat → α))

/-- A buffer and the list of its values, operation by operation; a resize is none on lists. -/
def act (itemSize : Nat) (w : Buffer α × List α) : Act α → Option (Buffer α × List α)
  | .op o => step w o
  | .resize newCount mem => (w.1.resize itemSize newCount mem).map fun r => (r.buffer, w.2)

def resizing (α : Type) (itemSize : Nat) : LTS (Buffer α × List α) (Act α) :=
  .ofFn (fun w => (∃ count mem, Buffer.ctor count mem = some w.1) ∧ w.2 = []) (act itemSize)

/-- There is room for the values in `newCount` slots, rounded up, and the slots have a size. -/
def Room (itemSize : Nat) (b : Buffer α) (newCount : Nat) : Prop :=
  match roundUpToPowerOf2 newCount with
  | some n => b.count < n ∧ n * itemSize < 2 ^ 64
  | none => True

def Fits (itemSize : Nat) (w : Buffer α × List α) : Act α → Prop
  | .op _ => True
  | .resize newCount mem => mem = none ∨ Room itemSize w.1 newCount

/-! ## The resize -/

variable {b : Buffer α} {l : List α} {itemSize newCount : Nat} {mem : Option (Nat → α)} {r : Resize α}

/-- The call passes its assertions: the allocator fails, or the values are copied. -/
theorem resize_cases (h : b.resize itemSize newCount mem = some r) :
    ∃ n, roundUpToPowerOf2 newCount = some n ∧ b.minSize ≤ n ∧ r.bytes = n * itemSize % 2 ^ 64 ∧
      ((r.buffer = b ∧ r.copied = 0 ∧ mem = none) ∨
        ∃ new, mem = some new ∧ (r.copied, r.buffer) = b.reallocTo n new) := by
  unfold Buffer.resize at h
  split at h
  · cases h
  next n hn =>
    obtain ⟨hm, h⟩ := Option.ite_none_right_eq_some.1 h
    cases mem with
    | none =>
      cases h
      exact ⟨n, hn, hm, rfl, .inl ⟨rfl, rfl, rfl⟩⟩
    | some new =>
      cases h
      exact ⟨n, hn, hm, rfl, .inr ⟨new, rfl, rfl⟩⟩

theorem Holds.resize (h : Holds b l) (hr : b.resize itemSize newCount mem = some r)
    (hG : mem = none ∨ Room itemSize b newCount) : Holds r.buffer l ∧ r.copied * itemSize ≤ r.bytes := by
  obtain ⟨n, hn, hm, hb, ⟨hbuf, hc, -⟩ | ⟨new, hnew, hc⟩⟩ := resize_cases hr
  · rw [hbuf, hc, Nat.zero_mul]
    exact ⟨h, Nat.zero_le _⟩
  · obtain ⟨hroom, hsize⟩ : b.count < n ∧ n * itemSize < 2 ^ 64 := by
      have hG := hG.resolve_left (by rw [hnew]; nofun)
      unfold Room at hG
      rwa [hn] at hG
    obtain ⟨hh, hle⟩ := h.reallocTo (isPowerOfTwo_roundUpToPowerOf2 hn) hm (h.count_eq ▸ hroom) new
    rw [← hc] at hh hle
    rw [hb, Nat.mod_eq_of_lt hsize]
    exact ⟨hh, Nat.mul_le_mul_right itemSize hle⟩

theorem resizing_inductive (itemSize : Nat) :
    ((resizing α itemSize).restrict (Fits itemSize)).Inductive fun w => Holds w.1 w.2 where
  init w hw := by
    obtain ⟨⟨count, mem, hb⟩, hl⟩ := hw
    rw [hl]
    exact .ctor hb
  step w a w' hw hs := by
    obtain ⟨hG, hs⟩ := hs
    cases a with
    | op o => exact deque_inductive.step w o w' hw hs
    | resize newCount mem =>
      obtain ⟨r, hr, rfl⟩ := Option.map_eq_some_iff.1 hs
      exact (hw.resize hr hG).1

/-- **An explicit resize is safe**, in any buffer that operations and such resizes have
made: it keeps the values, its indices are in range, and the items copied fit in the
block. -/
theorem resize_is_safe (itemSize : Nat) (w : Buffer α × List α)
    (hr : ((resizing α itemSize).restrict (Fits itemSize)).Reachable w) (newCount : Nat) (mem : Option (Nat → α))
    (r : Resize α) (h : w.1.resize itemSize newCount mem = some r) (hG : mem = none ∨ Room itemSize w.1 newCount) :
    w.1.contents = w.2 ∧ r.buffer.contents = w.1.contents ∧ r.buffer.head < r.buffer.capacity ∧
      r.buffer.tail < r.buffer.capacity ∧ r.copied * itemSize ≤ r.bytes := by
  have hw := (resizing_inductive itemSize).reachable w hr
  obtain ⟨hh, hle⟩ := hw.resize h hG
  exact ⟨hw.contents_eq, hh.contents_eq.trans hw.contents_eq.symm, hh.head_lt, hh.tail_lt, hle⟩

/-- Without the room it is not: the items do not fit in the slots, and `head` is out of range. -/
theorem resize_breaks (h : Holds b l) {n : Nat} (hn : roundUpToPowerOf2 newCount = some n) (hfull : n ≤ b.count)
    (hr : b.resize itemSize newCount mem = some r) (hok : mem ≠ none) :
    n ≤ r.copied ∧ r.buffer.capacity ≤ r.buffer.head := by
  obtain ⟨n', hn', hm, -, ⟨-, -, hno⟩ | ⟨new, -, hc⟩⟩ := resize_cases hr
  · exact absurd hno hok
  · cases hn.symm.trans hn'
    have hroom := h.room
    have hw := h.head_wrap
    have hpos : 0 < n := Nat.pos_of_isPowerOfTwo (isPowerOfTwo_roundUpToPowerOf2 hn)
    rw [h.count_eq] at hfull
    have hne : ¬ b.isEmpty = true := fun he => by rw [h.isEmpty_iff] at he; omega
    unfold Buffer.reallocTo at hc
    rw [if_neg hne] at hc
    split at hc
    · rw [if_neg (by omega), h.count_eq] at hc
      cases r
      cases hc
      exact ⟨hfull, hfull⟩
    · rw [h.count_eq] at hc
      cases r
      cases hc
      refine ⟨show n ≤ b.capacity - b.tail + b.head from ?_, hfull⟩
      split at hw <;> omega

instance (b : Buffer α) : Decidable (Room itemSize b newCount) :=
  match h : roundUpToPowerOf2 newCount with
  | some n => decidable_of_iff (b.count < n ∧ n * itemSize < 2 ^ 64) (by rw [Room, h])
  | none => isTrue (by rw [Room, h]; trivial)

instance (w : Buffer α × List α) : (a : Act α) → Decidable (Fits itemSize w a)
  | .op _ => isTrue trivial
  | .resize newCount mem => inferInstanceAs (Decidable (mem = none ∨ Room itemSize w.1 newCount))

/-- Three values of a wrapped buffer move to a block of the least size. -/
theorem resize_is_safe_three : ∃ (w : Buffer Nat × List Nat) (r : Resize Nat), w.1.head < w.1.tail ∧
    w.1.capacity = 8 ∧ r.buffer.capacity = 4 ∧ r.buffer.contents = [5, 6, 7] ∧ r.copied * 8 ≤ r.bytes := by
  obtain ⟨w, hr, hw, hc, hl, hG, hs⟩ := LTS.exists_of_execG (f := act 8) (G := Fits 8)
    (P := fun w : Buffer Nat × List Nat => w.1.head < w.1.tail ∧ w.1.capacity = 8 ∧ w.2 = [5, 6, 7] ∧ Room 8 w.1 3 ∧
      (w.1.resize 8 3 (some fun _ => 0)).map (·.buffer.capacity) = some 4)
    (show (resizing Nat 8).init (⟨4, 4, true, 0, fun _ => 0, 0, 0⟩, []) from ⟨⟨4, some fun _ => 0, rfl⟩, rfl⟩)
    ([0, 1, 2, 3, 4].map (fun v => .op (.push v true (some fun _ => 0))) ++ List.replicate 5 (.op .pop) ++
      [5, 6, 7].map fun v => .op (.pushPtr v)) (by decide +kernel)
  obtain ⟨r, hres, hcap⟩ := Option.map_eq_some_iff.1 hs
  obtain ⟨h₁, h₂, -, -, h₃⟩ := resize_is_safe 8 w hr 3 _ r hres (.inr hG)
  exact ⟨w, r, hw, hc, hcap, by rw [h₂, h₁, hl], h₃⟩

/-- **Counterexample.** Five values in eight slots, resized to four: one item more than the
block has room for is copied, and `head` is behind its end. -/
theorem shrink_overruns_block : ∃ (w : Buffer Nat × List Nat) (r : Resize Nat), (resizing Nat 8).Reachable w ∧
    w.1.resize 8 4 (some fun _ => 0) = some r ∧ r.bytes < r.copied * 8 ∧ r.buffer.capacity < r.buffer.head := by
  obtain ⟨w, hr, hw⟩ := LTS.exists_of_exec (f := act 8)
    (P := fun w : Buffer Nat × List Nat => ((w.1.resize 8 4 (some fun _ => 0)).any fun r =>
      decide (r.bytes < r.copied * 8 ∧ r.buffer.capacity < r.buffer.head)) = true)
    (show (resizing Nat 8).init (⟨4, 4, true, 0, fun _ => 0, 0, 0⟩, []) from ⟨⟨4, some fun _ => 0, rfl⟩, rfl⟩)
    ([0, 1, 2, 3, 4].map fun v => .op (.push v true (some fun _ => 0))) (by decide +kernel)
  obtain ⟨r, hres, hd⟩ := (Option.any_eq_true _ _).1 hw
  exact ⟨w, r, hr, hres, of_decide_eq_true hd⟩

end PhpAsync.L1.CircularBuffer
