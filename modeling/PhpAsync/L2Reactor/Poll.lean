import Mathlib.Data.List.Nodup
import Mathlib.Logic.Function.Basic
import PhpAsync.Core.LTS
import PhpAsync.Core.SwapRemove

/-!
# Poll events and their proxies

Model of libuv_reactor.c:680-747, 797-1057: a poll event on a descriptor, used directly or
through proxies. Every proxy has a mask of its own; `events` of the poll event is to be what
they need together, and libuv is armed with it.

The field is the mask of the poll event itself as well, and the code relies on it being
armed: a proxy that finds its mask there arms nothing (`started_proxy_is_deaf`).

* `armed_for_all`: the started proxies are the ones in the array, and exactly what they and
  the poll event need is armed, under `Steady`: a poll event used through proxies has no mask
  of its own and is not disarmed under them, libuv does not fail to change the mask, and who
  stops the last proxy is not the only one to hold the poll event.

uv_poll_start() with an empty mask arms nothing; one that fails leaves armed what was.
-/
namespace PhpAsync.L2.Poll

open PhpAsync.Core Function

/-- READABLE, WRITABLE, DISCONNECT, PRIORITIZED. -/
abbrev Mask := BitVec 4

/-- The system: the mask the poll event is created with, and those of its proxies. -/
structure Masks where
  own : Mask
  proxy : Nat → Mask

/-- `refs` and `loop` are `ref_count` and `loop_ref_count` of the poll event, `held` are the
references that are not a proxy's; `loops` are the `loop_ref_count`s of the proxies. -/
structure St where
  events : Mask
  armed : Mask
  refs : Nat
  held : Nat
  loop : Nat
  freed : Bool
  proxies : List Nat
  alive : Nat → Bool
  loops : Nat → Nat

/-- mirrors libuv_reactor.c:939-1003 -/
def create (m : Masks) : St := ⟨m.own, 0, 1, 1, 0, false, [], fun _ => false, fun _ => 0⟩

/-- mirrors libuv_reactor.c:680-697 -/
def pollStart (s : St) (ok : Bool) : St :=
  if 0 < s.loop then { s with loop := s.loop + 1 }
  else if ok then { s with armed := s.events, loop := 1 } else s

/-- mirrors libuv_reactor.c:702-718 -/
def pollStop (s : St) : St :=
  if s.loop = 0 then s
  else if 1 < s.loop then { s with loop := s.loop - 1 }
  else { s with armed := 0, loop := 0 }

/-- The last reference closes the handle.
mirrors libuv_reactor.c:723-754 -/
def pollDispose (s : St) : St :=
  if 1 < s.refs then { s with refs := s.refs - 1 } else { s with armed := 0, loop := 0, freed := true }

/-- `async_poll_remove_proxy`, mirrors libuv_reactor.c:815-824 -/
def removeProxy (xs : List Nat) (i : Nat) : List Nat := if i ∈ xs then swapRemove xs (xs.idxOf i) else xs

/-- The loop of `async_poll_aggregate_events`, which ends early when every bit is set.
mirrors libuv_reactor.c:829-844 -/
def aggregateEvents (mask : Nat → Mask) : List Nat → Mask → Mask
  | [], m => m
  | i :: xs, m => if m ||| mask i = 15 then m ||| mask i else aggregateEvents mask xs (m ||| mask i)

/-- `ok` is what `uv_poll_start` says, if it is called.
mirrors libuv_reactor.c:849-876 -/
def proxyStart (m : Masks) (s : St) (i : Nat) (ok : Bool) : St :=
  if 0 < s.loops i then { s with loops := update s.loops i (s.loops i + 1) }
  else
    let t := { s with proxies := s.proxies ++ [i] }
    let u := { t with loops := update s.loops i 1 }
    if s.events &&& m.proxy i = m.proxy i then u
    else if ok then { u with events := s.events ||| m.proxy i, armed := s.events ||| m.proxy i }
    else { t with events := s.events ||| m.proxy i }

/-- mirrors libuv_reactor.c:881-908 -/
def proxyStop (m : Masks) (s : St) (i : Nat) (ok : Bool) : St :=
  if s.loops i = 0 then s
  else if 1 < s.loops i then { s with loops := update s.loops i (s.loops i - 1) }
  else
    let t := { s with proxies := removeProxy s.proxies i, loops := update s.loops i 0 }
    let new := aggregateEvents m.proxy t.proxies 0
    if s.events ≠ new ∧ 1 < s.refs then { t with events := new, armed := if ok then new else s.armed } else t

/-- mirrors libuv_reactor.c:913-935 -/
def proxyDispose (m : Masks) (s : St) (i : Nat) (ok : Bool) : St :=
  let t := if 0 < s.loops i then proxyStop m { s with loops := update s.loops i 1 } i ok else s
  pollDispose { t with alive := update s.alive i false }

inductive Lbl where
  | hold
  | start (ok : Bool)
  | stop
  | dispose
  | newProxy (i : Nat)
  | startProxy (i : Nat) (ok : Bool)
  | stopProxy (i : Nat) (ok : Bool)
  | disposeProxy (i : Nat) (ok : Bool)
  deriving DecidableEq, Repr

/-- Who uses the poll event or a proxy holds it. -/
def step (m : Masks) (s : St) (l : Lbl) : Option St :=
  if s.freed then none
  else
    match l with
    | .hold => if 0 < s.held then some { s with refs := s.refs + 1, held := s.held + 1 } else none
    | .start ok => if 0 < s.held then some (pollStart s ok) else none
    | .stop => if 0 < s.held then some (pollStop s) else none
    | .dispose => if 0 < s.held then some { pollDispose s with held := s.held - 1 } else none
    | .newProxy i =>
      if 0 < s.held ∧ s.alive i = false then
        some { s with refs := s.refs + 1, alive := update s.alive i true } else none
    | .startProxy i ok => if s.alive i then some (proxyStart m s i ok) else none
    | .stopProxy i ok => if s.alive i then some (proxyStop m s i ok) else none
    | .disposeProxy i ok => if s.alive i then some (proxyDispose m s i ok) else none

def lts (m : Masks) : LTS St Lbl := LTS.ofFn (· = create m) (step m)

def Steady (m : Masks) (s : St) : Lbl → Prop
  | .stop => s.loop = 1 → s.proxies = []
  | .startProxy _ ok => m.own = 0 ∧ ok = true
  | .stopProxy _ ok => ok = true ∧ 1 < s.refs
  | .disposeProxy _ ok => ok = true
  | _ => True

instance (m : Masks) (s : St) : ∀ l, Decidable (Steady m s l)
  | .stop => inferInstanceAs (Decidable (_ → _))
  | .startProxy .. | .stopProxy .. => inferInstanceAs (Decidable (_ ∧ _))
  | .disposeProxy _ ok => inferInstanceAs (Decidable (ok = true))
  | .hold | .start _ | .dispose | .newProxy _ => inferInstanceAs (Decidable True)

/-! ## Masks -/

def union (mask : Nat → Mask) (xs : List Nat) : Mask := xs.foldr (fun i m => mask i ||| m) 0

theorem aggregateEvents_eq (mask : Nat → Mask) (xs : List Nat) (m : Mask) :
    aggregateEvents mask xs m = m ||| union mask xs := by
  induction xs generalizing m with
  | nil => simp [aggregateEvents, union]
  | cons i xs ih =>
    have hall : ∀ x : Mask, 15 ||| x = 15 := by decide
    simp only [aggregateEvents, union, List.foldr_cons, ← BitVec.or_assoc]
    split
    · rename_i h
      rw [h, hall]
    · exact ih _

theorem getLsbD_union {mask : Nat → Mask} {xs : List Nat} {b : Nat} :
    (union mask xs).getLsbD b = true ↔ ∃ i ∈ xs, (mask i).getLsbD b = true := by
  induction xs with
  | nil => simp [union]
  | cons i xs ih =>
    simp only [union, List.foldr_cons, BitVec.getLsbD_or, Bool.or_eq_true, List.exists_mem_cons_iff] at ih ⊢
    rw [ih]

theorem union_append (mask : Nat → Mask) (xs : List Nat) (i : Nat) :
    union mask (xs ++ [i]) = union mask xs ||| mask i := by
  induction xs with
  | nil => simp [union]
  | cons j xs ih =>
    simp only [union, List.cons_append, List.foldr_cons] at ih ⊢
    rw [ih, BitVec.or_assoc]

/-! ## The invariant -/

structure Armed (m : Masks) (s : St) : Prop where
  nodup : s.proxies.Nodup
  mem : ∀ i, i ∈ s.proxies ↔ 0 < s.loops i
  own : m.own ≠ 0 → s.proxies = []
  events : s.events = m.own ||| union m.proxy s.proxies
  armed : s.armed = union m.proxy s.proxies ||| if 0 < s.loop then m.own else 0

variable {m : Masks} {s t : St} {i n : Nat}

/-- A `loop_ref_count` that stays positive. -/
theorem Armed.setLoop (h : Armed m s) (hi : 0 < s.loops i) (hn : 0 < n) :
    Armed m { s with loops := update s.loops i n } := by
  refine { h with mem := fun j => ?_ }
  simp only [update_apply]
  split
  · subst_vars
    simp [h.mem, hi, hn]
  · exact h.mem j

theorem Armed.proxyStart (h : Armed m s) (hown : m.own = 0) : Armed m (proxyStart m s i true) := by
  have hcov : ∀ x y : Mask, x &&& y = y → x ||| y = x := by decide
  have he := h.events
  have ha := h.armed
  simp [hown] at he ha
  unfold Poll.proxyStart
  split
  · exact h.setLoop ‹_› (Nat.succ_pos _)
  · rename_i hi
    have hnot : i ∉ s.proxies := fun hm => hi ((h.mem i).1 hm)
    have hmem : ∀ j, j ∈ s.proxies ++ [i] ↔ 0 < update s.loops i 1 j := fun j => by
      rw [update_apply, List.mem_append, h.mem, List.mem_singleton]
      split <;> simp [*]
    have hnd : (s.proxies ++ [i]).Nodup :=
      List.nodup_append.2 ⟨h.nodup, List.nodup_singleton i, fun a ha b hb hab => hnot (List.mem_singleton.1 hb ▸ hab ▸ ha)⟩
    split
    · rename_i hc
      have hc := hcov _ _ (he ▸ hc)
      exact ⟨hnd, hmem, fun hne => absurd hown hne, by simp [hown, union_append, hc, he],
        by simp [hown, union_append, hc, ha]⟩
    · exact ⟨hnd, hmem, fun hne => absurd hown hne, by simp [hown, union_append, he], by simp [hown, union_append, he]⟩

theorem Armed.proxyStop (h : Armed m s) (hr : 1 < s.refs) : Armed m (proxyStop m s i true) := by
  unfold Poll.proxyStop
  split
  · exact h
  split
  · exact h.setLoop (by omega) (by omega)
  · rename_i h0 h1
    have hin : i ∈ s.proxies := (h.mem i).2 (by omega)
    have hown : m.own = 0 := Classical.byContradiction fun hne => by simp [h.own hne] at hin
    have hperm := swapRemove_perm (List.getElem?_idxOf hin)
    have hnd := List.nodup_cons.1 (hperm.nodup_iff.1 h.nodup)
    have hrem : removeProxy s.proxies i = swapRemove s.proxies (s.proxies.idxOf i) := if_pos hin
    have hmem : ∀ j, j ∈ removeProxy s.proxies i ↔ 0 < update s.loops i 0 j := fun j => by
      rw [hrem, update_apply]
      split
      · simp [*, hnd.1]
      · rename_i hj
        rw [← h.mem, hperm.mem_iff, List.mem_cons, or_iff_right hj]
    have he := h.events
    have ha := h.armed
    simp [hown] at he ha
    have hagg := aggregateEvents_eq m.proxy (removeProxy s.proxies i) 0
    rw [show (0 : Mask) ||| union m.proxy (removeProxy s.proxies i) = _ from BitVec.zero_or] at hagg
    simp only [hagg]
    split
    · exact ⟨hrem ▸ hnd.2, hmem, fun hne => absurd hown hne, by simp [hown], by simp [hown]⟩
    · rename_i hsame
      have hsame : s.events = union m.proxy (removeProxy s.proxies i) :=
        Classical.byContradiction fun hne => hsame ⟨hne, hr⟩
      exact ⟨hrem ▸ hnd.2, hmem, fun hne => absurd hown hne, by simp [hown, hsame], by simp [hown, ha, ← he, hsame]⟩

theorem refs_of_not_freed (hf : (pollDispose s).freed = false) : 1 < s.refs := by
  unfold pollDispose at hf
  split at hf
  · assumption
  · cases hf

theorem Armed.pollDispose (h : Armed m s) (hf : (pollDispose s).freed = false) : Armed m (pollDispose s) := by
  unfold Poll.pollDispose
  rw [if_pos (refs_of_not_freed hf)]
  exact { h with }

theorem proxyStop_refs (m : Masks) (s : St) (i : Nat) (ok : Bool) : (proxyStop m s i ok).refs = s.refs := by
  unfold proxyStop
  split
  · rfl
  split
  · rfl
  dsimp only
  split <;> rfl

theorem Armed.proxyDispose (h : Armed m s) (hf : (proxyDispose m s i true).freed = false) :
    Armed m (proxyDispose m s i true) := by
  unfold Poll.proxyDispose at hf ⊢
  split at hf
  · rename_i hi
    rw [if_pos hi]
    have hr : 1 < s.refs := by simpa only [proxyStop_refs] using refs_of_not_freed hf
    exact Armed.pollDispose { (h.setLoop hi Nat.one_pos).proxyStop hr with } hf
  · rename_i hi
    rw [if_neg hi]
    exact Armed.pollDispose { h with } hf

theorem Armed.step {l : Lbl} (h : Armed m s) (hG : Steady m s l) (ht : step m s l = some t) (hf : t.freed = false) :
    Armed m t := by
  obtain ⟨-, ht⟩ := Option.ite_none_left_eq_some.1 ht
  cases l with
  | hold =>
    obtain ⟨-, ⟨⟩⟩ := Option.ite_none_right_eq_some.1 ht
    exact { h with }
  | start ok =>
    obtain ⟨-, ⟨⟩⟩ := Option.ite_none_right_eq_some.1 ht
    unfold pollStart
    split
    · exact { h with armed := by simpa [*] using h.armed }
    split
    · exact { h with armed := by simp [h.events, BitVec.or_comm] }
    · exact h
  | stop =>
    obtain ⟨-, ⟨⟩⟩ := Option.ite_none_right_eq_some.1 ht
    unfold pollStop
    split
    · exact h
    split
    · rename_i h0 h1
      exact { h with armed := by simpa [Nat.pos_of_ne_zero h0, Nat.sub_pos_of_lt h1] using h.armed }
    · have hp := hG (by omega)
      exact { h with armed := by simp [hp, union] }
  | dispose =>
    obtain ⟨-, ⟨⟩⟩ := Option.ite_none_right_eq_some.1 ht
    exact { h.pollDispose hf with }
  | newProxy i =>
    obtain ⟨-, ⟨⟩⟩ := Option.ite_none_right_eq_some.1 ht
    exact { h with }
  | startProxy i ok =>
    obtain ⟨-, ⟨⟩⟩ := Option.ite_none_right_eq_some.1 ht
    obtain ⟨hown, rfl⟩ := hG
    exact h.proxyStart hown
  | stopProxy i ok =>
    obtain ⟨-, ⟨⟩⟩ := Option.ite_none_right_eq_some.1 ht
    obtain ⟨rfl, hr⟩ := hG
    exact h.proxyStop hr
  | disposeProxy i ok =>
    obtain ⟨-, ⟨⟩⟩ := Option.ite_none_right_eq_some.1 ht
    obtain rfl : ok = true := hG
    exact h.proxyDispose hf

theorem armed_inductive (m : Masks) :
    ((lts m).restrict (Steady m)).Inductive fun s => s.freed = false → Armed m s where
  init s hs _ := by
    rw [show s = create m from hs]
    exact ⟨List.nodup_nil, fun i => by simp [create], fun _ => rfl, by simp [create, union], by simp [create, union]⟩
  step s l t h hst hf := by
    refine (h ?_).step hst.1 hst.2 hf
    exact Bool.eq_false_iff.2 (Option.ite_none_left_eq_some.1 hst.2).1

/-- **The descriptor is armed for all.** In every steady run the array holds the started
proxies, each once, and libuv is armed with what they need, and with what the poll event
needs while it is started. -/
theorem armed_for_all (m : Masks) (s : St) (hr : ((lts m).restrict (Steady m)).Reachable s) (hf : s.freed = false) :
    s.proxies.Nodup ∧ (∀ i, i ∈ s.proxies ↔ 0 < s.loops i) ∧
    ∀ b, s.armed.getLsbD b = true ↔
      (∃ i, 0 < s.loops i ∧ (m.proxy i).getLsbD b = true) ∨ (0 < s.loop ∧ m.own.getLsbD b = true) := by
  have h := (armed_inductive m).reachable s hr hf
  refine ⟨h.nodup, h.mem, fun b => ?_⟩
  rw [h.armed, BitVec.getLsbD_or, Bool.or_eq_true, getLsbD_union]
  simp only [h.mem]
  refine or_congr_right ?_
  split <;> simp [*]

/-- A reader and a writer; the writer stops. -/
theorem armed_for_all_reader : ∃ s : St, s.loops 0 = 1 ∧ s.loops 1 = 0 ∧ 1 < s.refs ∧ s.armed = 1 ∧ s.proxies.Nodup := by
  obtain ⟨s, hr, h0, h1, h2, ha, hf⟩ := LTS.existsG_from (G := Steady ⟨0, fun i => BitVec.ofNat 4 (i + 1)⟩)
    (f := step ⟨0, fun i => BitVec.ofNat 4 (i + 1)⟩) (create ⟨0, fun i => BitVec.ofNat 4 (i + 1)⟩)
    [.newProxy 0, .newProxy 1, .startProxy 0 true, .start true, .startProxy 1 true, .stopProxy 1 true]
    (P := fun s => s.loops 0 = 1 ∧ s.loops 1 = 0 ∧ 1 < s.refs ∧ s.armed = 1 ∧ s.freed = false) (by decide +kernel)
  exact ⟨s, h0, h1, h2, ha, (armed_for_all _ s hr hf).1⟩

/-- **Counterexample.** The poll event was created for reading and is not started; a proxy
that is started for reading arms nothing. A proxy that libuv refuses is in the array and not
started. A poll event that is stopped disarms its started proxy. -/
theorem started_proxy_is_deaf :
    (∃ s, (lts ⟨1, fun _ => 1⟩).Reachable s ∧ s.proxies = [0] ∧ s.loops 0 = 1 ∧ s.armed = 0) ∧
    (∃ s, (lts ⟨0, fun _ => 1⟩).Reachable s ∧ s.proxies = [0] ∧ s.loops 0 = 0 ∧ s.armed = 0) ∧
    ∃ s, (lts ⟨0, fun _ => 1⟩).Reachable s ∧ s.proxies = [0] ∧ s.loops 0 = 1 ∧ s.armed = 0 :=
  ⟨LTS.exists_from (f := step _) (create _) [.newProxy 0, .startProxy 0 true] (by decide +kernel),
    LTS.exists_from (f := step _) (create _) [.newProxy 0, .startProxy 0 false] (by decide +kernel),
    LTS.exists_from (f := step _) (create _) [.newProxy 0, .startProxy 0 true, .start true, .stop] (by decide +kernel)⟩

end PhpAsync.L2.Poll
