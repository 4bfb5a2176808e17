import Mathlib.Data.List.Nodup
import PhpAsync.Core.LTS

/-!
# The lossless FIFO

What a queue between producers and consumers is for, without waiting, capacity
or wakeups. Items with distinct keys are accepted at the back and delivered from
the front; an item that is held may also be dropped, and is recorded as such.
The ledger keeps the whole history.

* `Fifo`: delivered and held items together are the accepted ones without the
  dropped ones, in acceptance order.
* `fifo_reachable`: it holds in every reachable ledger.
* `Fifo.conserved`: an accepted item is in exactly one place.
* `Fifo.delivered_eq`: deliveries happen in acceptance order.
-/
namespace PhpAsync.Core

structure Ledger (α : Type) where
  accepted : List α
  delivered : List α
  dropped : List α
  held : List α

namespace Ledger

variable {α κ : Type} [DecidableEq κ]

inductive Op (α : Type) where
  | accept (a : α)
  | deliver (a : α)
  | drop (a : α)

/-- `drop` takes the item out of wherever it is held. -/
inductive Step (key : α → κ) : Ledger α → Op α → Ledger α → Prop
  | accept (l : Ledger α) (a : α) (h : key a ∉ l.accepted.map key) :
      Step key l (.accept a) { l with accepted := l.accepted ++ [a], held := l.held ++ [a] }
  | deliver (l : Ledger α) (a : α) (rest : List α) (h : l.held = a :: rest) :
      Step key l (.deliver a) { l with delivered := l.delivered ++ [a], held := rest }
  | drop (l : Ledger α) (a : α) (front back : List α) (h : l.held = front ++ a :: back) :
      Step key l (.drop a) { l with dropped := l.dropped ++ [a], held := front ++ back }

def lts (key : α → κ) : LTS (Ledger α) (Op α) where
  init l := l = ⟨[], [], [], []⟩
  step := Step key

structure Fifo (key : α → κ) (l : Ledger α) : Prop where
  distinct : (l.accepted.map key).Nodup
  conserve : l.accepted.Perm (l.delivered ++ l.held ++ l.dropped)
  order : l.delivered ++ l.held = l.accepted.filter fun a => decide (key a ∉ l.dropped.map key)

variable {a : α} {key : α → κ} {l : Ledger α}

section Steps

variable {key : α → κ} {l : Ledger α}

/-- The keys of everything delivered, held or dropped are distinct. -/
theorem Fifo.nodup (h : l.Fifo key) :
    ((l.delivered ++ l.held ++ l.dropped).map key).Nodup :=
  (h.conserve.map key).nodup_iff.1 h.distinct

theorem Fifo.accept (h : l.Fifo key) (ha : key a ∉ l.accepted.map key) :
    ({ l with accepted := l.accepted ++ [a], held := l.held ++ [a] } : Ledger α).Fifo key := by
  refine ⟨?_, ?_, ?_⟩
  · grind [h.distinct]
  · have h1 := h.conserve.append_right [a]
    refine h1.trans ?_
    rw [← List.append_assoc l.delivered, List.append_assoc _ [a] l.dropped,
      List.append_assoc _ l.dropped [a]]
    exact List.Perm.append_left _ List.perm_append_comm
  · have hd : key a ∉ l.dropped.map key := by
      intro hm
      refine ha ((h.conserve.map key).mem_iff.2 ?_)
      rw [List.map_append]
      exact List.mem_append_right _ hm
    rw [List.filter_append, ← h.order, ← List.append_assoc, List.filter_cons_of_pos (by simpa using hd),
      List.filter_nil]

theorem Fifo.deliver (h : l.Fifo key) {rest : List α} (ha : l.held = a :: rest) :
    ({ l with delivered := l.delivered ++ [a], held := rest } : Ledger α).Fifo key := by
  have he : (l.delivered ++ [a]) ++ rest = l.delivered ++ l.held := by
    rw [ha, List.append_assoc, List.singleton_append]
  refine ⟨h.distinct, ?_, ?_⟩
  · dsimp only
    rw [he]; exact h.conserve
  · dsimp only
    rw [he]; exact h.order

/-- Without the one item that has key `key a`. -/
theorem filter_ne_of_nodup : ∀ {xs ys : List α}, ((xs ++ a :: ys).map key).Nodup →
    (xs ++ a :: ys).filter (fun b => decide (key b ≠ key a)) = xs ++ ys
  | xs, ys, h => by
    have hne : ∀ b ∈ xs ++ ys, key b ≠ key a := by
      intro b hb he
      have hperm : (xs ++ a :: ys).Perm (a :: (xs ++ ys)) := List.perm_middle
      have hn := (hperm.map key).nodup_iff.1 h
      rw [List.map_cons, List.nodup_cons] at hn
      rw [← he] at hn
      exact hn.1 (List.mem_map_of_mem hb)
    rw [List.filter_append, List.filter_cons_of_neg (by simp), ← List.filter_append]
    exact List.filter_eq_self.2 fun b hb => by simpa using hne b hb

theorem Fifo.drop (h : l.Fifo key) {front back : List α} (ha : l.held = front ++ a :: back) :
    ({ l with dropped := l.dropped ++ [a], held := front ++ back } : Ledger α).Fifo key := by
  have hsplit : l.delivered ++ l.held = (l.delivered ++ front) ++ a :: back := by
    rw [ha, List.append_assoc]
  refine ⟨h.distinct, ?_, ?_⟩
  · refine h.conserve.trans ?_
    rw [hsplit, ← List.append_assoc l.delivered front back]
    have hmid : ((l.delivered ++ front) ++ a :: back).Perm (a :: ((l.delivered ++ front) ++ back)) :=
      List.perm_middle
    refine (hmid.append_right l.dropped).trans ?_
    rw [← List.append_assoc _ l.dropped [a], List.cons_append]
    exact (List.perm_append_singleton _ _).symm
  · have hn := h.nodup
    rw [hsplit, List.map_append] at hn
    have hfilter := filter_ne_of_nodup (List.nodup_append.1 hn).1
    rw [← List.append_assoc, ← hfilter, ← hsplit, h.order, List.filter_filter]
    refine List.filter_congr fun b _ => ?_
    rw [← Bool.decide_and]
    refine decide_eq_decide.2 ?_
    simp only [List.map_append, List.map_cons, List.map_nil, List.mem_append, List.mem_singleton,
      not_or]
    exact And.comm

end Steps

theorem fifo_inductive (key : α → κ) : (lts key).Inductive (Fifo key) where
  init l hl := by
    subst hl
    exact ⟨List.nodup_nil, List.Perm.refl _, rfl⟩
  step l op l' h hs := by
    cases hs with
    | accept a ha => exact h.accept ha
    | deliver a rest ha => exact h.deliver ha
    | drop a front back ha => exact h.drop ha

/-- **Lossless FIFO.** -/
theorem fifo_reachable (key : α → κ) (l : Ledger α) (h : (lts key).Reachable l) : l.Fifo key :=
  (fifo_inductive key).reachable l h

/-- An accepted item is delivered, held or dropped: in one place, once. -/
theorem Fifo.conserved (h : l.Fifo key) (ha : a ∈ l.accepted) :
    (l.held.map key).count (key a) + (l.delivered.map key).count (key a) +
      (l.dropped.map key).count (key a) = 1 := by
  have hm : key a ∈ (l.delivered ++ l.held ++ l.dropped).map key :=
    List.mem_map_of_mem (h.conserve.mem_iff.1 ha)
  have h1 := List.count_eq_one_of_mem h.nodup hm
  rw [List.map_append, List.map_append, List.count_append, List.count_append] at h1
  omega

theorem Fifo.mem_accepted (h : l.Fifo key) (ha : a ∈ l.delivered ∨ a ∈ l.held ∨ a ∈ l.dropped) : a ∈ l.accepted := by
  refine h.conserve.mem_iff.2 ?_
  simpa [List.mem_append, or_assoc] using ha

/-- Deliveries are the accepted items, in acceptance order, without those that
were dropped and those still held. -/
theorem Fifo.delivered_eq (h : l.Fifo key) :
    l.delivered = l.accepted.filter fun a =>
      decide (key a ∉ l.dropped.map key) && decide (key a ∉ l.held.map key) := by
  have hn := h.nodup
  rw [List.map_append, List.map_append] at hn
  have hdisj := (List.nodup_append.1 (List.nodup_append.1 hn).1).2.2
  have hkeep : (l.delivered ++ l.held).filter (fun a => decide (key a ∉ l.held.map key)) =
      l.delivered := by
    rw [List.filter_append]
    have h1 : l.delivered.filter (fun a => decide (key a ∉ l.held.map key)) = l.delivered := by
      refine List.filter_eq_self.2 fun a ha => ?_
      have hne : key a ∉ l.held.map key := fun hm =>
        hdisj (key a) (List.mem_map_of_mem ha) (key a) hm rfl
      simpa using hne
    have h2 : l.held.filter (fun a => decide (key a ∉ l.held.map key)) = [] := by
      refine List.filter_eq_nil_iff.2 fun a ha => ?_
      have hm : key a ∈ l.held.map key := List.mem_map_of_mem ha
      simpa using hm
    rw [h1, h2, List.append_nil]
  rw [h.order, List.filter_filter] at hkeep
  rw [← hkeep]
  exact List.filter_congr fun a _ => Bool.and_comm _ _

end Ledger
end PhpAsync.Core
