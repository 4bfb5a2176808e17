import PhpAsync.L2Reactor.Poll

/-!
# A poll event reaches its proxies

Model of `async_poll_notify_proxies` (libuv_reactor.c:758-792): the loop goes through the live
array by index, and a callback it runs may start, stop and dispose of proxies. A stopped proxy
leaves a hole that the last one is moved into. Where the hole is behind the loop, the last one
never has its turn (`moved_proxy_is_skipped`).

**Hypothesis** (`Orderly`): a callback stops a proxy that has had its turn only when every
proxy in the array has had it, and does not start it again.

A start or stop that only changes `loop_ref_count` leaves the array alone and is left out, as
is a start that libuv refuses.
-/
namespace PhpAsync.L2.Poll

open PhpAsync.Core

/-- What the reactor reports. -/
structure Report where
  triggered : Mask
  exception : Bool

/-- DISCONNECT is bit 2.
mirrors libuv_reactor.c:768 -/
def Report.isTerminal (e : Report) : Bool := e.triggered.getLsbD 2 || e.exception

/-- mirrors libuv_reactor.c:774 -/
def Report.concerns (e : Report) (mask : Nat → Mask) (p : Nat) : Bool :=
  e.isTerminal || decide (e.triggered &&& mask p ≠ 0)

/-- The loop at index `i`; `cur` is the proxy whose callbacks run, which the loop holds a
reference to, and `released` that they have given up theirs. The last three are the history:
who has had a turn, who was notified, who was stopped before its turn. -/
structure Walk where
  proxies : List Nat
  i : Nat
  cur : Option Nat
  released : Bool
  turned : List Nat
  notified : List Nat
  stopped : List Nat
  deriving DecidableEq, Repr

inductive Act where
  | visit
  | start (p : Nat)
  | stop (p : Nat)
  | dispose (p : Nat)
  | ret
  deriving DecidableEq, Repr

/-- `async_poll_remove_proxy` of a started proxy. -/
def Walk.remove (w : Walk) (p : Nat) : Walk :=
  { w with
    proxies := removeProxy w.proxies p
    stopped := if p ∈ w.turned then w.stopped else p :: w.stopped }

/-- mirrors libuv_reactor.c:771-791, 797-824, 849-935 -/
def next (mask : Nat → Mask) (e : Report) (w : Walk) : Act → Option Walk
  | .visit =>
    if w.cur = none then
      w.proxies[w.i]?.map fun p =>
        if e.concerns mask p then { w with cur := some p, turned := p :: w.turned, notified := p :: w.notified }
        else { w with i := w.i + 1, turned := p :: w.turned }
    else none
  | .start p => if w.cur.isSome ∧ p ∉ w.proxies then some { w with proxies := w.proxies ++ [p] } else none
  | .stop p => if w.cur.isSome ∧ p ∈ w.proxies then some (w.remove p) else none
  | .dispose p =>
    if w.cur = some p then (if w.released then none else some { w with released := true })
    else if w.cur.isSome ∧ p ∈ w.proxies then some (w.remove p) else none
  | .ret =>
    w.cur.map fun p =>
      { (if w.released ∧ p ∈ w.proxies then w.remove p else w) with i := w.i + 1, cur := none, released := false }

def notify (mask : Nat → Mask) (e : Report) (xs : List Nat) : LTS Walk Act :=
  LTS.ofFn (· = ⟨xs, 0, none, false, [], [], []⟩) (next mask e)

/-- How much of the array is behind the loop. -/
def Walk.past (w : Walk) : Nat := if w.cur.isSome then w.i + 1 else w.i

/-- To remove `p` moves nobody behind the loop. -/
def Walk.Clear (w : Walk) (p : Nat) : Prop := p ∈ w.proxies.take w.past → w.proxies.length ≤ w.past

instance (w : Walk) (p : Nat) : Decidable (w.Clear p) := inferInstanceAs (Decidable (_ → _))

def Orderly (w : Walk) : Act → Prop
  | .start p => p ∉ w.turned
  | .stop p => w.Clear p
  | .dispose p => w.cur = some p ∨ w.Clear p
  | .ret => w.released = true → ∀ p ∈ w.cur, w.Clear p
  | .visit => True

instance (w : Walk) (a : Act) : Decidable (Orderly w a) := by
  unfold Orderly
  split <;> infer_instance

/-! ## The loop -/

/-- `xs` is the array the notification began with. -/
structure Walking (mask : Nat → Mask) (e : Report) (xs : List Nat) (w : Walk) : Prop where
  nodup : w.proxies.Nodup
  ahead : ∀ p ∈ xs, p ∈ w.turned ∨ p ∈ w.stopped ∨ p ∈ w.proxies.drop w.past
  fresh : ∀ p ∈ w.proxies.drop w.past, p ∉ w.turned
  once : w.turned.Nodup
  notified : w.notified = w.turned.filter (e.concerns mask)

variable {mask : Nat → Mask} {e : Report} {xs l : List Nat} {w w' : Walk} {p n : Nat}

/-- What leaves from ahead of `n` takes nobody else with it. -/
theorem swapRemove_drop (hp : p ∈ l) (hn : p ∉ l.take n) :
    (l.drop n).Perm (p :: (swapRemove l (l.idxOf p)).drop n) := by
  have hx := List.getElem?_idxOf hp
  have hle : n ≤ l.idxOf p := by
    refine Nat.le_of_not_lt fun hlt => hn ?_
    obtain ⟨hi, he⟩ := List.getElem?_eq_some_iff.1 hx
    exact List.mem_take_iff_getElem.2 ⟨l.idxOf p, by omega, he⟩
  have htake : (swapRemove l (l.idxOf p)).take n = l.take n := by
    refine List.ext_getElem? fun k => ?_
    rw [List.getElem?_take, List.getElem?_take]
    split
    · exact swapRemove_getElem? hx (by omega)
    · rfl
  have hperm := swapRemove_perm hx
  rw [← List.take_append_drop n (swapRemove l _), htake] at hperm
  refine (List.perm_append_left_iff (l.take n)).1 (.trans ?_ List.perm_middle.symm)
  rwa [List.take_append_drop]

theorem Walking.remove (h : Walking mask e xs w) (hp : p ∈ w.proxies) (hc : w.Clear p) :
    Walking mask e xs (w.remove p) := by
  have hx := List.getElem?_idxOf hp
  have hrem : (w.remove p).proxies = swapRemove w.proxies (w.proxies.idxOf p) := if_pos hp
  -- who is ahead of the loop, apart from `p`, is the same
  have key : ∀ q, q ∈ w.proxies.drop w.past → q ≠ p → q ∈ (w.remove p).proxies.drop w.past := by
    intro q hq hne
    rw [hrem]
    by_cases hb : p ∈ w.proxies.take w.past
    · rw [List.drop_eq_nil_of_le (hc hb)] at hq
      cases hq
    · exact (List.mem_cons.1 ((swapRemove_drop hp hb).mem_iff.1 hq)).resolve_left hne
  have back : ∀ q, q ∈ (w.remove p).proxies.drop w.past → q ∈ w.proxies.drop w.past := by
    intro q hq
    rw [hrem] at hq
    by_cases hb : p ∈ w.proxies.take w.past
    · have := swapRemove_length hx
      have := hc hb
      rw [List.drop_eq_nil_of_le (by omega)] at hq
      cases hq
    · exact (swapRemove_drop hp hb).mem_iff.2 (List.mem_cons_of_mem p hq)
  have hnd := ((swapRemove_perm hx).nodup_iff.1 h.nodup).of_cons
  refine ⟨hrem ▸ hnd, fun q hq => ?_, fun q hq => h.fresh q (back q hq), h.once, h.notified⟩
  rcases h.ahead q hq with ht | hs | hd
  · exact .inl ht
  · refine .inr (.inl ?_)
    simp only [Walk.remove]
    split
    · exact hs
    · exact List.mem_cons_of_mem p hs
  · by_cases hqp : q = p
    · subst hqp
      exact .inr (.inl (by simp [Walk.remove, h.fresh q hd]))
    · exact .inr (.inr (key q hd hqp))

theorem Walking.turn (h : Walking mask e xs w) (hcur : w.cur = none) (hp : w.proxies[w.i]? = some p)
    (he : (w'.proxies, w'.past, w'.turned, w'.stopped) = (w.proxies, w.i + 1, p :: w.turned, w.stopped))
    (hn : w'.notified = w'.turned.filter (e.concerns mask)) : Walking mask e xs w' := by
  simp only [Prod.mk.injEq] at he
  obtain ⟨h1, h2, h3, h4⟩ := he
  have hdrop : w.proxies.drop w.past = p :: w.proxies.drop (w.i + 1) := by
    obtain ⟨hi, rfl⟩ := List.getElem?_eq_some_iff.1 hp
    rw [show w.past = w.i by rw [Walk.past, hcur]; rfl, List.drop_eq_getElem_cons hi]
  have hnd := h.nodup.sublist (List.drop_sublist w.past _)
  obtain ⟨hall, ha, hf, ho, -⟩ := h
  rw [hdrop] at ha hf hnd
  refine ⟨h1 ▸ hall, fun q hq => ?_, fun q hq => ?_, ?_, hn⟩
  · rw [h1, h2, h3, h4]
    rcases ha q hq with ht | hs | hd
    · exact .inl (List.mem_cons_of_mem p ht)
    · exact .inr (.inl hs)
    · rcases List.mem_cons.1 hd with rfl | hd
      · exact .inl List.mem_cons_self
      · exact .inr (.inr hd)
  · rw [h1, h2] at hq
    rw [h3, List.mem_cons, not_or]
    exact ⟨fun hqp => (List.nodup_cons.1 hnd).1 (hqp ▸ hq), hf q (List.mem_cons_of_mem p hq)⟩
  · rw [h3]
    exact List.nodup_cons.2 ⟨hf p List.mem_cons_self, ho⟩

theorem Walking.next {a : Act} (h : Walking mask e xs w) (hG : Orderly w a) (hw : next mask e w a = some w') :
    Walking mask e xs w' := by
  cases a with
  | visit =>
    obtain ⟨hcur, hw⟩ := Option.ite_none_right_eq_some.1 hw
    obtain ⟨p, hp, rfl⟩ := Option.map_eq_some_iff.1 hw
    split
    · rename_i hc
      exact h.turn hcur hp rfl (by show p :: w.notified = _; rw [List.filter_cons_of_pos hc, h.notified])
    · rename_i hc
      refine h.turn hcur hp ?_ (by show w.notified = _; rw [List.filter_cons_of_neg hc, h.notified])
      simp [Walk.past, hcur]
  | start p =>
    obtain ⟨⟨-, hp⟩, ⟨⟩⟩ := Option.ite_none_right_eq_some.1 hw
    have hdrop : (w.proxies ++ [p]).drop w.past = w.proxies.drop w.past ++ [p].drop (w.past - w.proxies.length) :=
      List.drop_append
    refine ⟨?_, fun q hq => ?_, fun q hq => ?_, h.once, h.notified⟩
    · exact List.nodup_append.2 ⟨h.nodup, List.nodup_singleton p, fun a ha b hb hab =>
        hp (List.mem_singleton.1 hb ▸ hab ▸ ha)⟩
    · exact (h.ahead q hq).imp_right (.imp_right fun hd => hdrop ▸ List.mem_append_left _ hd)
    · rcases List.mem_append.1 (hdrop ▸ hq) with hq | hq
      · exact h.fresh q hq
      · rw [List.mem_singleton.1 (List.mem_of_mem_drop hq)]
        exact hG
  | stop p =>
    obtain ⟨⟨-, hp⟩, ⟨⟩⟩ := Option.ite_none_right_eq_some.1 hw
    exact h.remove hp hG
  | dispose p =>
    simp only [Poll.next] at hw
    split at hw
    · obtain ⟨-, ⟨⟩⟩ := Option.ite_none_left_eq_some.1 hw
      exact ⟨h.nodup, h.ahead, h.fresh, h.once, h.notified⟩
    · rename_i hne
      obtain ⟨⟨-, hp⟩, ⟨⟩⟩ := Option.ite_none_right_eq_some.1 hw
      exact h.remove hp (hG.resolve_left hne)
  | ret =>
    obtain ⟨p, hp, rfl⟩ := Option.map_eq_some_iff.1 hw
    have hpast : w.past = w.i + 1 := by rw [Walk.past, hp]; rfl
    have hend : ∀ {v : Walk}, v.past = w.i + 1 → Walking mask e xs v →
        Walking mask e xs { v with i := w.i + 1, cur := none, released := false } :=
      fun hv h => ⟨h.nodup, hv ▸ h.ahead, hv ▸ h.fresh, h.once, h.notified⟩
    split
    · rename_i hrel
      exact hend hpast (h.remove hrel.2 (hG hrel.1 p hp))
    · exact hend hpast h

theorem walking_inductive (mask : Nat → Mask) (e : Report) (h0 : xs.Nodup) :
    ((notify mask e xs).restrict Orderly).Inductive (Walking mask e xs) where
  init w hw := by
    rw [show w = _ from hw]
    exact ⟨h0, fun p hp => .inr (.inr hp), fun p _ => List.not_mem_nil, List.nodup_nil, rfl⟩
  step w a w' h hs := h.next hs.1 hs.2

/-- **A poll event reaches its proxies.** In every orderly notification of an array of started
proxies, one that the event concerns and that is not stopped before its turn is notified, or
still ahead of the loop, and never twice; once the loop has ended it was notified exactly once. -/
theorem proxies_are_notified (mask : Nat → Mask) (e : Report) (xs : List Nat) (h0 : xs.Nodup) (w : Walk)
    (hr : ((notify mask e xs).restrict Orderly).Reachable w) (p : Nat) (hp : p ∈ xs) (hc : e.concerns mask p = true)
    (hs : p ∉ w.stopped) :
    w.notified.count p ≤ 1 ∧ (p ∈ w.notified ∨ p ∈ w.proxies.drop w.past) ∧
      (w.cur = none → w.proxies.length ≤ w.i → w.notified.count p = 1) := by
  have h := (walking_inductive mask e h0).reachable w hr
  have hle : w.notified.count p ≤ 1 := by
    rw [h.notified]
    exact List.nodup_iff_count_le_one.1 (h.once.filter _) p
  have hon : p ∈ w.notified ∨ p ∈ w.proxies.drop w.past := by
    rcases h.ahead p hp with ht | hstop | hd
    · exact .inl (h.notified ▸ List.mem_filter.2 ⟨ht, hc⟩)
    · exact (hs hstop).elim
    · exact .inr hd
  refine ⟨hle, hon, fun hcur hlen => Nat.le_antisymm hle (List.count_pos_iff.2 ?_)⟩
  refine hon.resolve_right fun hd => ?_
  rw [List.drop_eq_nil_of_le (by rw [Walk.past, hcur]; exact hlen)] at hd
  cases hd

/-- The first callback stops the second proxy, so the third is moved; the third disposes of itself. -/
theorem proxies_are_notified_three : ∃ w : Walk, w.notified = [2, 0] ∧ w.proxies = [0] ∧ w.notified.count 2 = 1 := by
  obtain ⟨w, hr, hn, hq, hc, hl, hs⟩ := LTS.existsG_from (f := next (fun _ => 1) ⟨1, false⟩) (G := Orderly)
    ⟨[0, 1, 2], 0, none, false, [], [], []⟩ [.visit, .stop 1, .ret, .visit, .dispose 2, .ret]
    (P := fun w => w.notified = [2, 0] ∧ w.proxies = [0] ∧ w.cur = none ∧ w.proxies.length ≤ w.i ∧ 2 ∉ w.stopped)
    (by decide +kernel)
  exact ⟨w, hn, hq, (proxies_are_notified _ _ [0, 1, 2] (by decide) w hr 2 (by decide) (by decide) hs).2.2 hc hl⟩

/-- **Counterexample.** The callback of the first proxy stops it: the last takes its place
behind the loop, and is not notified when the loop ends. -/
theorem moved_proxy_is_skipped : ∃ w, (notify (fun _ => 1) ⟨1, false⟩ [0, 1]).Reachable w ∧ w.cur = none ∧
    w.proxies.length ≤ w.i ∧ 1 ∉ w.stopped ∧ w.proxies = [1] ∧ w.notified = [0] :=
  LTS.exists_from (f := next (fun _ => 1) ⟨1, false⟩) ⟨[0, 1], 0, none, false, [], [], []⟩ [.visit, .stop 0, .ret]
    (by decide +kernel)

end PhpAsync.L2.Poll
