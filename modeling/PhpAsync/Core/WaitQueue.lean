import Mathlib.Data.List.Basic
import Mathlib.Data.List.Induction
import PhpAsync.Core.LTS

/-!
# Waiting queues with reservations

Several parties wait for places that others free. A freed place is *granted*
to the oldest waiter that has none, but the waiter only runs later: until then
it stays queued with its `reserved` flag set, and the counter `reserved` keeps
the place from everybody else. A waiter leaves when it runs, and gives its
reservation back at that moment; it can also be taken out of the queue before
(the queue is being shut down).

`table` lists every waiter that was ever queued, so a waiter's index in it is
its arrival number; `queue` holds the arrival numbers of those still queued.

* `WF`: arrival order, and the counter counts the reservations not given back.
* `Held`: a reservation not given back belongs to a queued waiter. It fails
  only for waiters taken out of the queue while they held one.
* `reserved_eq`: under both, the counter is the number of queued waiters whose
  flag is set.
* `first_some`: the waiter granted next is the oldest free one.
* `Matched slack n`: with `n` places, no reservation is without a place, and
  while somebody waits at most `slack` places are given to nobody. A place that
  becomes free costs one unit of slack, `Matched.grant` gives it back.
* `Served gs`: the waiters `gs` were served in arrival order, and before every
  free one that is still queued.
-/
namespace PhpAsync.Core

structure Waiter (α : Type) where
  data : α
  reserved : Bool
  /-- the waiter has not run since it was queued -/
  live : Bool
  deriving Repr

structure WaitQueue (α : Type) where
  table : List (Waiter α)
  queue : List Nat
  reserved : Nat
  deriving Repr

namespace WaitQueue

variable {α : Type}

def empty : WaitQueue α := ⟨[], [], 0⟩

def isReserved (q : WaitQueue α) (w : Nat) : Bool := q.table[w]?.any (·.reserved)

/-- Nothing is promised to `w`, and it is not one of those that only wait for
an answer (`skip`). -/
def isFree (skip : α → Bool) (q : WaitQueue α) (w : Nat) : Bool :=
  q.table[w]?.any fun x => !x.reserved && !skip x.data

/-- The oldest free waiter. -/
def first (skip : α → Bool) (q : WaitQueue α) : Option Nat := q.queue.find? (q.isFree skip)

def push (q : WaitQueue α) (a : α) : WaitQueue α :=
  { q with table := q.table ++ [⟨a, false, true⟩], queue := q.queue ++ [q.table.length] }

def grant (q : WaitQueue α) (w : Nat) : WaitQueue α :=
  { q with table := q.table.modify w fun x => { x with reserved := true },
           reserved := q.reserved + 1 }

def remove (q : WaitQueue α) (w : Nat) : WaitQueue α := { q with queue := q.queue.erase w }

/-- `w` runs: it leaves the queue and gives back what it had reserved. -/
def leave (q : WaitQueue α) (w : Nat) : WaitQueue α :=
  { table := q.table.modify w fun x => { x with live := false },
    queue := q.queue.erase w,
    reserved := if q.isReserved w then q.reserved - 1 else q.reserved }

/-- The reservations not given back. -/
def outstanding (q : WaitQueue α) : Nat := q.table.countP fun x => x.live && x.reserved

structure WF (q : WaitQueue α) : Prop where
  sorted : q.queue.Pairwise (· < ·)
  known : ∀ w ∈ q.queue, ∃ x, q.table[w]? = some x ∧ x.live = true
  count : q.reserved = q.outstanding

def Held (q : WaitQueue α) : Prop :=
  ∀ w x, q.table[w]? = some x → x.live = true → x.reserved = true → w ∈ q.queue

/-- Somebody queued waits for a place. -/
def Starving (skip : α → Bool) (q : WaitQueue α) : Prop := ∃ w ∈ q.queue, q.isFree skip w = true

instance (skip : α → Bool) (q : WaitQueue α) : Decidable (q.Starving skip) :=
  inferInstanceAs (Decidable (∃ w ∈ q.queue, q.isFree skip w = true))

/-! ## Counting in a table -/

theorem countP_modify {β : Type} (p : β → Bool) (f : β → β) :
    ∀ (l : List β) (i : Nat) (x : β), l[i]? = some x →
      (l.modify i f).countP p + (if p x then 1 else 0) = l.countP p + (if p (f x) then 1 else 0)
  | [], i, x, h => by simp at h
  | y :: l, 0, x, h => by grind
  | y :: l, i + 1, x, h => by
    simp only [List.getElem?_cons_succ] at h
    have ih := countP_modify p f l i x h
    simp only [List.modify_succ_cons, List.countP_cons]; omega

/-- A duplicate-free list of indices that are exactly those of the table
entries satisfying `p` is as long as there are such entries. -/
theorem length_eq_countP {β : Type} (p : β → Bool) :
    ∀ (t : List β) (q : List Nat), q.Nodup → (∀ i, i ∈ q ↔ t[i]?.any p = true) →
      q.length = t.countP p := by
  intro t
  induction t using List.reverseRecOn with
  | nil =>
    intro q _ h
    have : q = [] := by
      cases q with
      | nil => rfl
      | cons i q => have := (h i).1 List.mem_cons_self; simp at this
    subst this; rfl
  | append_singleton t x ih =>
    intro q hq h
    have hlt : ∀ i, i ≠ t.length → (i ∈ q ↔ t[i]?.any p = true) := by grind
    have hx : t.length ∈ q ↔ p x = true := by rw [h]; simp
    have herase : (q.erase t.length).length = t.countP p := by grind
    rw [List.countP_append, List.countP_singleton, ← herase, List.length_erase]
    by_cases hp : p x = true
    · grind
    · have hm : t.length ∉ q := fun hm => hp (hx.1 hm)
      simp [hm, hp]

/-! ## What the operations do to flags and queue -/

theorem getElem?_push (q : WaitQueue α) (a : α) (i : Nat) :
    (q.push a).table[i]? = if i = q.table.length then some ⟨a, false, true⟩ else q.table[i]? := by
  simp only [push, List.getElem?_append]
  split
  · rename_i h; rw [if_neg (by omega)]
  · grind

theorem getElem?_grant (q : WaitQueue α) (w i : Nat) :
    (q.grant w).table[i]? =
      q.table[i]?.map fun x => if w = i then { x with reserved := true } else x := by
  simp only [grant, List.getElem?_modify]; cases q.table[i]? <;> rfl

theorem getElem?_leave (q : WaitQueue α) (w i : Nat) :
    (q.leave w).table[i]? =
      q.table[i]?.map fun x => if w = i then { x with live := false } else x := by
  simp only [leave, List.getElem?_modify]; cases q.table[i]? <;> rfl

theorem isFree_push (skip : α → Bool) (q : WaitQueue α) (a : α) {i : Nat}
    (h : i < q.table.length) : (q.push a).isFree skip i = q.isFree skip i := by
  unfold isFree; rw [getElem?_push, if_neg (by omega)]

theorem isReserved_push (q : WaitQueue α) (a : α) (i : Nat) :
    (q.push a).isReserved i = q.isReserved i := by
  unfold isReserved; rw [getElem?_push]
  split
  · rename_i h; subst h; simp
  · rfl

theorem isFree_grant (skip : α → Bool) (q : WaitQueue α) (w i : Nat) :
    (q.grant w).isFree skip i = (decide (w ≠ i) && q.isFree skip i) := by
  unfold isFree; rw [getElem?_grant]
  by_cases h : w = i <;> cases q.table[i]? <;> simp [h]

theorem isFree_leave (skip : α → Bool) (q : WaitQueue α) (w i : Nat) :
    (q.leave w).isFree skip i = q.isFree skip i := by
  unfold isFree; rw [getElem?_leave]
  by_cases h : w = i <;> cases q.table[i]? <;> simp [h]

theorem isReserved_grant (q : WaitQueue α) (w i : Nat) (h : w ≠ i) :
    (q.grant w).isReserved i = q.isReserved i := by
  unfold isReserved; rw [getElem?_grant]; cases q.table[i]? <;> simp [h]

theorem isReserved_leave (q : WaitQueue α) (w i : Nat) :
    (q.leave w).isReserved i = q.isReserved i := by
  unfold isReserved; rw [getElem?_leave]
  by_cases h : w = i <;> cases q.table[i]? <;> simp [h]

variable {q : WaitQueue α} {skip : α → Bool} {w : Nat} {x : Waiter α}

theorem isFree_some (h : q.isFree skip w = true) :
    ∃ x, q.table[w]? = some x ∧ x.reserved = false ∧ skip x.data = false := by
  unfold isFree at h
  cases hx : q.table[w]? with
  | none => simp [hx] at h
  | some x => grind

theorem isFree_of (hx : q.table[w]? = some x) (hr : x.reserved = false) (hs : skip x.data = false) :
    q.isFree skip w = true := by
  unfold isFree
  rw [hx]
  simp only [Option.any_some, hr, hs, Bool.not_false, Bool.and_self]

theorem isReserved_some (h : q.table[w]? = some x) : q.isReserved w = x.reserved := by unfold isReserved; rw [h]; rfl

/-! ## The invariants and the operations -/

theorem WF.nodup (h : q.WF) : q.queue.Nodup :=
  h.sorted.imp fun hlt => Nat.ne_of_lt hlt

theorem WF.mem_erase (h : q.WF) {i : Nat} : i ∈ q.queue.erase w ↔ i ≠ w ∧ i ∈ q.queue := h.nodup.mem_erase_iff

theorem WF.lt_length (h : q.WF) (hw : w ∈ q.queue) : w < q.table.length := by
  obtain ⟨x, hx, -⟩ := h.known w hw
  exact (List.getElem?_eq_some_iff.1 hx).1

theorem wf_empty : (empty : WaitQueue α).WF :=
  ⟨List.Pairwise.nil, fun _ h => (List.not_mem_nil h).elim, rfl⟩

theorem held_empty : (empty : WaitQueue α).Held := by
  intro w x h; simp [empty] at h

theorem wf_push (h : q.WF) (a : α) : (q.push a).WF := by
  refine ⟨?_, ?_, ?_⟩
  · grind [h.sorted, h.lt_length, push]
  · intro w hw
    simp only [push, List.mem_append, List.mem_singleton] at hw
    rw [getElem?_push]
    rcases hw with hw | rfl
    · rw [if_neg (Nat.ne_of_lt (h.lt_length hw))]; exact h.known w hw
    · exact ⟨_, if_pos rfl, rfl⟩
  · grind [h.count, outstanding, push]

theorem held_push (h : q.Held) (a : α) : (q.push a).Held := by
  intro w x hx hl hr
  rw [getElem?_push] at hx
  split at hx
  · cases hx; cases hr
  · exact List.mem_append_left _ (h w x hx hl hr)

theorem wf_grant (h : q.WF) (hw : w ∈ q.queue) (hf : q.isFree skip w = true) : (q.grant w).WF := by
  refine ⟨h.sorted, ?_, ?_⟩
  · grind [h.known, isFree, grant]
  · obtain ⟨x, hx, hr, -⟩ := isFree_some hf
    obtain ⟨y, hy, hl⟩ := h.known w hw
    rw [hx] at hy; cases hy
    have hc := countP_modify (fun x : Waiter α => x.live && x.reserved)
      (fun x => { x with reserved := true }) q.table w x hx
    simp only [hl, hr, Bool.and_false, Bool.and_true, Bool.false_eq_true, if_false, if_true] at hc
    have hq := h.count
    simp only [grant, outstanding] at hq ⊢
    omega

theorem held_grant (h : q.Held) (hw : w ∈ q.queue) : (q.grant w).Held := by
  intro i x hx hl hr
  rw [getElem?_grant, Option.map_eq_some_iff] at hx
  obtain ⟨y, hy, rfl⟩ := hx
  by_cases hi : w = i
  · subst hi; exact hw
  · simp only [hi, if_false] at hl hr; exact h i y hy hl hr

theorem wf_remove (h : q.WF) (w : Nat) : (q.remove w).WF :=
  ⟨h.sorted.erase w, fun i hi => h.known i (List.mem_of_mem_erase hi), h.count⟩

theorem held_remove (h : q.Held) (hr : q.isReserved w = false) : (q.remove w).Held := by
  intro i x hx hl hres
  change q.table[i]? = some x at hx
  have hi := h i x hx hl hres
  refine (List.mem_erase_of_ne ?_).2 hi
  rintro rfl
  rw [isReserved_some hx, hres] at hr; cases hr

theorem wf_leave (h : q.WF) (hx : q.table[w]? = some x) (hl : x.live = true) : (q.leave w).WF := by
  refine ⟨h.sorted.erase w, ?_, ?_⟩
  · grind [h.mem_erase, h.known, leave]
  · grind [countP_modify, isReserved_some, h.count, outstanding, leave]

theorem held_leave (h : q.Held) (w : Nat) : (q.leave w).Held := by
  intro i x hx hl hr
  rw [getElem?_leave, Option.map_eq_some_iff] at hx
  obtain ⟨y, hy, rfl⟩ := hx
  by_cases hi : w = i
  · subst hi; simp at hl
  · grind [Held, leave]

/-- A waiter that has not run and holds a reservation is counted. -/
theorem WF.reserved_pos (h : q.WF) (hx : q.table[w]? = some x) (hl : x.live = true) (hr : x.reserved = true) :
    0 < q.reserved := by
  rw [h.count, outstanding, List.countP_pos_iff]
  exact ⟨x, List.mem_of_getElem? hx, by simp [hl, hr]⟩

/-- Nobody holds a reservation once the counter is 0. -/
theorem WF.exists_reserved (h : q.WF) (hp : 0 < q.reserved) :
    ∃ (w : Nat) (x : Waiter α), q.table[w]? = some x ∧ x.live = true ∧ x.reserved = true := by
  rw [h.count, outstanding, List.countP_pos_iff] at hp
  obtain ⟨x, hm, hx⟩ := hp
  obtain ⟨w, hw⟩ := List.mem_iff_getElem?.1 hm
  simp only [Bool.and_eq_true] at hx
  exact ⟨w, x, hw, hx⟩

theorem reserved_eq (h : q.WF) (hh : q.Held) : q.reserved = q.queue.countP q.isReserved := by
  rw [h.count, outstanding, List.countP_eq_length_filter (p := q.isReserved)]
  refine (length_eq_countP _ q.table _ (h.nodup.filter _) (fun i => ?_)).symm
  simp only [List.mem_filter, isReserved]
  cases hx : q.table[i]? with
  | none => simp
  | some x => grind [h.known, Held, isReserved]

/-- More queued than reserved: somebody queued has no reservation. -/
theorem reserved_lt_length (h : q.WF) (hh : q.Held) :
    q.reserved < q.queue.length ↔ ∃ w ∈ q.queue, q.isReserved w = false := by
  rw [reserved_eq h hh]
  have hle := List.countP_le_length (p := q.isReserved) (l := q.queue)
  constructor
  · intro hlt
    by_contra hn
    have : ∀ w ∈ q.queue, q.isReserved w = true := by
      intro w hw
      by_contra hr
      exact hn ⟨w, hw, by simpa using hr⟩
    rw [List.countP_eq_length.2 this] at hlt
    omega
  · rintro ⟨w, hw, hr⟩
    rcases Nat.lt_or_ge (q.queue.countP q.isReserved) q.queue.length with hlt | hge
    · exact hlt
    · have := List.countP_eq_length.1 (Nat.le_antisymm hle hge) w hw
      rw [hr] at this; cases this

/-! ## Who is granted next -/

theorem first_none : q.first skip = none ↔ ¬ q.Starving skip := by
  simp only [first, Starving, List.find?_eq_none, not_exists, not_and]

theorem first_mem (h : q.first skip = some w) : w ∈ q.queue ∧ q.isFree skip w = true :=
  ⟨List.mem_of_find?_eq_some h, List.find?_some h⟩

/-- **Service order.** The waiter granted next is the oldest of those queued
without a reservation. -/
theorem first_some (hq : q.WF) (h : q.first skip = some w) : ∀ v ∈ q.queue, q.isFree skip v = true → w ≤ v := by
  obtain ⟨-, as, bs, hqe, has⟩ := List.find?_eq_some_iff_append.1 h
  intro v hv hf
  have hs := hq.sorted
  rw [hqe] at hv hs
  rcases List.mem_append.1 hv with hv | hv
  · have := has v hv; rw [hf] at this; cases this
  · rcases List.mem_cons.1 hv with rfl | hv
    · exact Nat.le_refl _
    · exact Nat.le_of_lt ((List.pairwise_cons.1 (List.pairwise_append.1 hs).2.1).1 v hv)

theorem starving_push (hq : q.WF) {a : α} (h : (q.push a).Starving skip) : q.Starving skip ∨ skip a = false := by
  obtain ⟨w, hw, hf⟩ := h
  simp only [push, List.mem_append, List.mem_singleton] at hw
  rcases hw with hw | rfl
  · exact .inl ⟨w, hw, by rwa [isFree_push skip q a (hq.lt_length hw)] at hf⟩
  · right
    obtain ⟨x, hx, -, hs⟩ := isFree_some hf
    rw [getElem?_push, if_pos rfl] at hx; cases hx
    exact hs

theorem starving_grant (h : (q.grant w).Starving skip) : q.Starving skip := by
  obtain ⟨v, hv, hf⟩ := h
  rw [isFree_grant, Bool.and_eq_true] at hf
  exact ⟨v, hv, hf.2⟩

theorem starving_remove (h : (q.remove w).Starving skip) : q.Starving skip := by
  obtain ⟨v, hv, hf⟩ := h
  exact ⟨v, List.mem_of_mem_erase hv, hf⟩

theorem starving_leave (h : (q.leave w).Starving skip) : q.Starving skip := by
  obtain ⟨v, hv, hf⟩ := h
  rw [isFree_leave] at hf
  exact ⟨v, List.mem_of_mem_erase hv, hf⟩

/-! ## Waiters and places -/

/-- The waiter `w`, if it has not run. -/
def live? (q : WaitQueue α) (w : Nat) : Option α :=
  q.table[w]?.bind fun x => if x.live then some x.data else none

@[simp] theorem live?_grant (q : WaitQueue α) (w : Nat) : (q.grant w).live? = q.live? := by
  funext i
  unfold live?; rw [getElem?_grant]
  cases q.table[i]? with
  | none => rfl
  | some x => by_cases h : w = i <;> simp [h]

theorem live?_push (q : WaitQueue α) (a : α) (i : Nat) :
    (q.push a).live? i = if i = q.table.length then some a else q.live? i := by
  unfold live?; rw [getElem?_push]
  split <;> rfl

theorem live?_leave (q : WaitQueue α) (w i : Nat) :
    (q.leave w).live? i = if w = i then none else q.live? i := by
  unfold live?; rw [getElem?_leave]
  cases q.table[i]? with
  | none => simp
  | some x => by_cases h : w = i <;> simp [h]

theorem live?_some {a : α} (h : q.live? w = some a) : ∃ x, q.table[w]? = some x ∧ x.live = true ∧ x.data = a := by
  unfold live? at h
  cases hx : q.table[w]? with
  | none => simp [hx] at h
  | some x => grind

theorem live?_of (h : q.table[w]? = some x) (hl : x.live = true) : q.live? w = some x.data := by
  unfold live?; rw [h]; simp [hl]

/-- The waiters of `q` against `n` places. -/
structure Matched (skip : α → Bool) (slack n : Nat) (q : WaitQueue α) : Prop where
  wf : q.WF
  backed : q.reserved ≤ n
  served : q.Starving skip → n ≤ q.reserved + slack

namespace Matched

variable {skip : α → Bool} {slack n : Nat} {q : WaitQueue α}

theorem mono (h : q.Matched skip slack n) {slack' : Nat} (hs : slack ≤ slack') :
    q.Matched skip slack' n :=
  ⟨h.wf, h.backed, fun hq => Nat.le_trans (h.served hq) (Nat.add_le_add_left hs _)⟩

/-- Nobody waits: any slack will do. -/
theorem of_not_starving (h : q.Matched skip slack n) (hn : ¬ q.Starving skip) (slack' : Nat) :
    q.Matched skip slack' n := ⟨h.wf, h.backed, fun hq => (hn hq).elim⟩

/-- A place that is given to nobody exists only while nobody waits. -/
theorem not_starving (h : q.Matched skip 0 n) (hf : q.reserved < n) : ¬ q.Starving skip := by
  intro hq
  have := h.served hq
  omega

/-- A place becomes free. -/
theorem free (h : q.Matched skip slack n) : q.Matched skip (slack + 1) (n + 1) :=
  ⟨h.wf, Nat.le_succ_of_le h.backed, fun hq => by have := h.served hq; omega⟩

/-- A place that is given to nobody is used up. -/
theorem use (h : q.Matched skip slack (n + 1)) (hf : q.reserved < n + 1) :
    q.Matched skip (slack - 1) n :=
  ⟨h.wf, Nat.le_of_lt_succ hf, fun hq => by have := h.served hq; omega⟩

theorem push (h : q.Matched skip slack n) (a : α)
    (ha : skip a = false → n ≤ q.reserved + slack) : (q.push a).Matched skip slack n := by
  refine ⟨wf_push h.wf a, h.backed, fun hq => ?_⟩
  rcases starving_push h.wf hq with hq | hs
  · exact h.served hq
  · exact ha hs

theorem remove (h : q.Matched skip slack n) (w : Nat) : (q.remove w).Matched skip slack n :=
  ⟨wf_remove h.wf w, h.backed, fun hq => h.served (starving_remove hq)⟩

/-- A free place is granted to the oldest free waiter. -/
theorem grant (h : q.Matched skip (slack + 1) n) (hf : q.reserved < n) (hw : q.first skip = some w) :
    (q.grant w).Matched skip slack n := by
  obtain ⟨hm, hfree⟩ := first_mem hw
  refine ⟨wf_grant h.wf hm hfree, hf, fun _ => ?_⟩
  have := h.served ⟨w, hm, hfree⟩
  change n ≤ q.reserved + 1 + slack
  omega

/-- A waiter runs. What it had reserved is now given to nobody. -/
theorem leave (h : q.Matched skip slack n) (hx : q.table[w]? = some x) (hl : x.live = true) :
    (q.leave w).Matched skip (if x.reserved then slack + 1 else slack) n ∧
      (x.reserved = true → (q.leave w).reserved < n) := by
  have hb := h.backed
  have hpos := h.wf.reserved_pos hx hl
  have hr : (q.leave w).reserved = if x.reserved then q.reserved - 1 else q.reserved := by
    simp only [WaitQueue.leave, isReserved_some hx]
  refine ⟨⟨wf_leave h.wf hx hl, ?_, fun hq => ?_⟩, ?_⟩
  · rw [hr]; split <;> omega
  · have := h.served (starving_leave hq)
    rw [hr]; split <;> omega
  · intro hres
    have := hpos hres
    rw [hr, if_pos hres]; omega

end Matched

/-! ## Service order -/

structure Served (skip : α → Bool) (gs : List Nat) (q : WaitQueue α) : Prop where
  sorted : gs.Pairwise (· < ·)
  known : ∀ g ∈ gs, g < q.table.length
  next : ∀ g ∈ gs, ∀ v ∈ q.queue, q.isFree skip v = true → g < v

namespace Served

variable {skip : α → Bool} {gs : List Nat} {q : WaitQueue α}

theorem push (h : q.Served skip gs) (a : α) : (q.push a).Served skip gs := by
  refine ⟨h.sorted, fun g hg => ?_, fun g hg v hv hf => ?_⟩
  · have := h.known g hg
    simp only [WaitQueue.push, List.length_append, List.length_singleton]; omega
  · simp only [WaitQueue.push, List.mem_append, List.mem_singleton] at hv
    rcases Nat.lt_or_ge v q.table.length with hlt | hge
    · rw [isFree_push skip q a hlt] at hf
      exact h.next g hg v (hv.resolve_right (Nat.ne_of_lt hlt)) hf
    · have := h.known g hg
      omega

/-- Waiters leave the queue, and nobody becomes free. -/
theorem sub (h : q.Served skip gs) {q' : WaitQueue α} (ht : q'.table.length = q.table.length)
    (hq : ∀ v ∈ q'.queue, q'.isFree skip v = true → v ∈ q.queue ∧ q.isFree skip v = true) :
    q'.Served skip gs := by
  refine ⟨h.sorted, fun g hg => by rw [ht]; exact h.known g hg, fun g hg v hv hf => ?_⟩
  obtain ⟨hv, hf⟩ := hq v hv hf
  exact h.next g hg v hv hf

theorem remove (h : q.Served skip gs) (w : Nat) : (q.remove w).Served skip gs :=
  h.sub rfl (fun _ hv hf => ⟨List.mem_of_mem_erase hv, hf⟩)

theorem leave (h : q.Served skip gs) (w : Nat) : (q.leave w).Served skip gs := by
  refine h.sub (by simp [WaitQueue.leave]) (fun v hv hf => ?_)
  rw [isFree_leave] at hf
  exact ⟨List.mem_of_mem_erase hv, hf⟩

/-- The oldest free waiter is served next; it is not free afterwards. -/
theorem serve (h : q.Served skip gs) (hq : q.WF) (hw : q.first skip = some w) {q' : WaitQueue α}
    (ht : q'.table.length = q.table.length)
    (hfree : ∀ v ∈ q'.queue, q'.isFree skip v = true → v ≠ w ∧ v ∈ q.queue ∧ q.isFree skip v = true) :
    q'.Served skip (gs ++ [w]) := by
  obtain ⟨hm, hwf⟩ := first_mem hw
  refine ⟨?_, fun g hg => ?_, fun g hg v hv hf => ?_⟩
  · grind [h.sorted, h.next]
  · rw [ht]
    rcases List.mem_append.1 hg with hg | hg
    · exact h.known g hg
    · rw [List.mem_singleton.1 hg]; exact hq.lt_length hm
  · obtain ⟨hne, hv, hf⟩ := hfree v hv hf
    rcases List.mem_append.1 hg with hg | hg
    · exact h.next g hg v hv hf
    · rw [List.mem_singleton.1 hg]
      have := first_some hq hw v hv hf
      omega

theorem grant (h : q.Served skip gs) (hq : q.WF) (hw : q.first skip = some w) :
    (q.grant w).Served skip (gs ++ [w]) := by
  refine h.serve hq hw (by simp [WaitQueue.grant]) (fun v hv hf => ?_)
  rw [isFree_grant, Bool.and_eq_true, decide_eq_true_eq] at hf
  exact ⟨Ne.symm hf.1, hv, hf.2⟩

theorem dequeue (h : q.Served skip gs) (hq : q.WF) (hw : q.first skip = some w) :
    (q.remove w).Served skip (gs ++ [w]) :=
  h.serve hq hw rfl (fun _ hv hf => ⟨(hq.mem_erase.1 hv).1, (hq.mem_erase.1 hv).2, hf⟩)

end Served

end WaitQueue
end PhpAsync.Core
