import Mathlib.Data.List.Basic
import PhpAsync.L2ThreadChannel.Wakeup

/-!
# The buffer between threads

`Lossless` keeps the books of a channel: what was pushed is what was popped followed by the
buffer, and a call has pushed its value exactly if it has returned `true`.

* `thread_fifo`
-/
namespace PhpAsync.L2.ThreadChannel

open PhpAsync.Core PhpAsync.L1

variable {V : Type} {c i : Nat} {s t : St V} {p q : Call V}

/-- The value of a send that has returned `true`. -/
def Call.sent (p : Call V) : Option V :=
  match p.kind, p.phase with
  | .send v, .done .ok => some v
  | _, _ => none

/-- What a call has pushed. -/
def St.pushedBy (s : St V) (i : Nat) : List (Nat × V) := s.pushed.filter (·.1 == i)

/-- The books of the channel. -/
structure Lossless (capacity : Nat) (s : St V) : Prop where
  bound : s.buffer.length ≤ capacity
  order : s.pushed = s.popped ++ s.buffer
  known : ∀ m ∈ s.pushed, m.1 < s.calls.length
  sent : ∀ i o, (s.calls.map Call.sent)[i]? = some o → s.pushedBy i = (o.map (i, ·)).toList

/-- A step that moves no value and lets no send return `true`. -/
theorem Lossless.same (h : Lossless c s) (hb : t.buffer = s.buffer) (hpu : t.pushed = s.pushed)
    (hpo : t.popped = s.popped) (hc : t.calls.map Call.sent = s.calls.map Call.sent) : Lossless c t where
  bound := by rw [hb]; exact h.bound
  order := by rw [hb, hpu, hpo]; exact h.order
  known := by
    have hlen : t.calls.length = s.calls.length := by simpa using congrArg List.length hc
    rw [hpu, hlen]
    exact h.known
  sent := by
    unfold St.pushedBy
    rw [hc, hpu]
    exact h.sent

theorem fire_sent (b : Bool) (p : Call V) : (fire b p).sent = p.sent := by
  unfold fire
  split <;> rfl

theorem fireAll_sent (b : Bool) (s : St V) : (fireAllTriggers b s).calls.map Call.sent = s.calls.map Call.sent := by
  unfold fireAllTriggers
  rw [List.map_map]
  exact List.map_congr_left fun p _ => fire_sent b p

theorem set_sent (hp : s.calls[i]? = some p) (hq : q.sent = p.sent) :
    (s.calls.set i q).map Call.sent = s.calls.map Call.sent := by
  rw [List.map_set, hq]
  refine List.ext_getElem? fun j => ?_
  by_cases hj : i = j
  · grind
  · rw [List.getElem?_set_ne hj]

theorem Lossless.set (h : Lossless c s) (hp : s.calls[i]? = some p) (hq : q.sent = p.sent) :
    Lossless c { s with calls := s.calls.set i q } := h.same rfl rfl rfl (set_sent hp hq)

theorem Lossless.append (h : Lossless c s) (hq : q.sent = none) : Lossless c { s with calls := s.calls ++ [q] } where
  bound := h.bound
  order := h.order
  known m hm := by
    rw [List.length_append]
    exact Nat.lt_add_right _ (h.known m hm)
  sent j o hj := by
    rw [List.map_append] at hj
    by_cases hlt : j < s.calls.length
    · rw [List.getElem?_append_left (by simpa using hlt)] at hj
      exact h.sent j o hj
    · rw [List.getElem?_append_right (by simpa using hlt)] at hj
      have ho : o = none := by
        have := List.mem_of_getElem? hj
        simpa [hq] using this
      subst ho
      refine List.filter_eq_nil_iff.2 fun m hm => ?_
      have := h.known m hm
      simp only [beq_iff_eq]
      omega

/-- A value goes into the buffer. -/
theorem Lossless.push {v : V} (h : Lossless c s) (hlt : s.buffer.length < c) (hi : i < s.calls.length)
    (hn : s.pushedBy i = []) (hb : t.buffer = s.buffer ++ [(i, v)]) (hpu : t.pushed = s.pushed ++ [(i, v)])
    (hpo : t.popped = s.popped) (hc : t.calls.map Call.sent = (s.calls.map Call.sent).set i (some v)) :
    Lossless c t where
  bound := by
    rw [hb, List.length_append]
    exact hlt
  order := by rw [hb, hpu, hpo, h.order, List.append_assoc]
  known m hm := by
    have hlen : t.calls.length = s.calls.length := by simpa using congrArg List.length hc
    rw [hpu] at hm
    rw [hlen]
    rcases List.mem_append.1 hm with hm | hm
    · exact h.known m hm
    · rw [List.mem_singleton.1 hm]
      exact hi
  sent j o hj := by
    rw [hc] at hj
    have hfil : t.pushedBy j = s.pushedBy j ++ [(i, v)].filter (·.1 == j) := by
      unfold St.pushedBy
      rw [hpu, List.filter_append]
    rw [hfil]
    by_cases hij : i = j
    · grind
    · rw [List.getElem?_set_ne hij] at hj
      rw [h.sent j o hj]
      simp [hij]

/-- The oldest value leaves the buffer. -/
theorem Lossless.pop {m : Nat × V} {rest : List (Nat × V)} (h : Lossless c s) (hb : s.buffer = m :: rest) :
    Lossless c { s with buffer := rest, popped := s.popped ++ [m] } where
  bound := by grind [h.bound]
  order := by grind [h.order]
  known := h.known
  sent := h.sent

theorem Lossless.fireAll (h : Lossless c s) (b : Bool) : Lossless c (fireAllTriggers b s) :=
  h.same rfl rfl rfl (fireAll_sent b s)

/-- The sum does not wrap. -/
theorem ring_eq (hc : c < 2147483647) : ring c = CircularBuffer.slots (c + 1) := by
  simp only [ring, Nat.mod_eq_of_lt (show c + 1 < 2 ^ 32 by omega), if_pos (show c + 1 < 2 ^ 31 by omega)]

theorem push_eq {m : Nat × V} (hc : c < 2147483647) (hlt : s.buffer.length < c) :
    push c s m = { s with buffer := s.buffer ++ [m], pushed := s.pushed ++ [m] } := by
  unfold ThreadChannel.push
  rw [ring_eq hc, CircularBuffer.not_isFull hlt]
  rfl

theorem sent_none (h : p.phase = .done .ok → p.kind.isSender = false) : p.sent = none := by
  unfold Call.sent
  split
  · rename_i hk hd
    have := h hd
    rw [hk] at this
    cases this
  · rfl

theorem Lossless.refuse (h : Lossless c s) (hp : s.calls[i]? = some p) (hn : p.sent = none) :
    Lossless c (finish s i p .refused) := by
  refine h.set hp ?_
  rw [hn]
  exact sent_none nofun

theorem Lossless.register (h : Lossless c s) (hp : s.calls[i]? = some p) (hn : p.sent = none) :
    Lossless c (register s i p) := by
  refine h.set hp ?_
  rw [hn]
  exact sent_none nofun

theorem Lossless.attemptSend {v : V} (hc : c < 2147483647) (h : Lossless c s) (hp : s.calls[i]? = some p) (hk : p.kind = .send v)
    (hn : p.sent = none) : Lossless c (attemptSend c s i p v) := by
  unfold ThreadChannel.attemptSend
  split
  · exact h.refuse hp hn
  · split
    · rename_i hlt
      have hi := (List.getElem?_eq_some_iff.1 hp).1
      have hnone : s.pushedBy i = [] := h.sent i none (by rw [List.getElem?_map, hp]; exact congrArg some hn)
      rw [push_eq hc hlt]
      refine h.push hlt hi hnone rfl rfl rfl ?_
      show ((s.calls.map (fire false)).set i _).map Call.sent = _
      rw [List.map_set, List.map_map]
      have hv : Call.sent { p with phase := .done .ok } = some v := by
        unfold Call.sent
        rw [hk]
      rw [hv]
      exact congrArg (·.set i (some v)) (List.map_congr_left fun q _ => fire_sent false q)
    · exact h.register hp hn

theorem Lossless.attemptReceive {w : Bool} (h : Lossless c s) (hp : s.calls[i]? = some p)
    (hk : p.kind.isSender = false) (hn : p.sent = none) : Lossless c (attemptReceive s i p w) := by
  unfold ThreadChannel.attemptReceive
  split
  · rename_i m rest hb
    have h' := (h.pop hb).fireAll true
    refine h'.set (p := fire true p) ?_ ?_
    · show (s.calls.map (fire true))[i]? = _
      rw [List.getElem?_map, hp]
      rfl
    · rw [fire_sent, hn]
      exact sent_none fun _ => hk
  · split
    · exact h.refuse hp hn
    · exact h.register hp hn

theorem wake_ok {thrown : Bool} (h : wake c s p thrown = .done .ok) : p.kind.isSender = false := by
  unfold wake at h
  split at h
  · cases h
  · grind [wake, Kind.isSender]

/-- A step of a call's own does not make a send return `true`. -/
theorem own_sent {e : Event} (hq : own c s p e = some q) : q.sent = p.sent := by
  have hbefore : p.sent = none := sent_none fun hd => by cases e <;> simp [own, hd] at hq
  rw [hbefore]
  refine sent_none fun hd => ?_
  cases e with
  | wake => grind [wake_ok, own]
  | suspend => grind [own]
  | recheck => grind [own]
  | _ =>
    simp only [own] at hq
    split at hq <;> cases hq <;> cases hd

theorem Lossless.close (h : Lossless c s) : Lossless c (close s) := by
  unfold ThreadChannel.close
  split
  · exact h
  · have h' : Lossless c { s with closed := true } := h.same rfl rfl rfl rfl
    exact (h'.fireAll false).fireAll true

theorem Lossless.step {l : Lbl V} (hc : c < 2147483647) (h : Lossless c s) (ht : step c s l = some t) : Lossless c t := by
  cases l with
  | call k e =>
    cases ht
    exact h.append (sent_none nofun)
  | untransferable v =>
    cases ht
    exact h.append rfl
  | attempt i =>
    obtain ⟨p, hp, ht⟩ := Option.bind_eq_some_iff.1 ht
    split at ht
    · rename_i ha
      cases ht
      have hn : p.sent = none := sent_none (by rw [ha]; nofun)
      unfold attempt
      split
      · rename_i hk
        exact h.attemptSend hc hp hk hn
      · rename_i hk
        exact h.attemptReceive hp (by rw [hk]; rfl) hn
      · rename_i hk
        exact h.attemptReceive hp (by rw [hk]; rfl) hn
    · cases ht
  | own i e =>
    obtain ⟨p, hp, ht⟩ := Option.bind_eq_some_iff.1 ht
    obtain ⟨q, hq, rfl⟩ := Option.map_eq_some_iff.1 ht
    exact h.set hp (own_sent hq)
  | close =>
    cases ht
    exact h.close

theorem lossless_inductive (V : Type) (hc : c < 2147483647) : (lts V c).Inductive (Lossless c) where
  init s hs := by
    have hs' : s = start := hs
    subst hs'
    exact ⟨Nat.zero_le _, rfl, nofun, nofun⟩
  step s l t h hst := h.step hc hst

/-! ## What stays -/

/-- Nothing is taken back. -/
structure Grows (s t : St V) : Prop where
  pushed : s.pushed <+: t.pushed
  popped : s.popped <+: t.popped

theorem Grows.trans {r : St V} (h : Grows r s) (h' : Grows s t) : Grows r t :=
  ⟨h.pushed.trans h'.pushed, h.popped.trans h'.popped⟩

theorem grows_of_eq (h1 : t.pushed = s.pushed) (h2 : t.popped = s.popped) : Grows s t :=
  ⟨h1 ▸ List.prefix_refl _, h2 ▸ List.prefix_refl _⟩

theorem attempt_grows (c : Nat) (s : St V) (i : Nat) (p : Call V) : Grows s (attempt c s i p) := by
  have hrec : ∀ w, Grows s (attemptReceive s i p w) := by
    intro w
    unfold attemptReceive
    split
    · exact ⟨List.prefix_refl _, List.prefix_append _ _⟩
    · split <;> exact grows_of_eq rfl rfl
  unfold attempt
  split
  · unfold attemptSend
    split
    · exact grows_of_eq rfl rfl
    · split
      · unfold push
        split
        · exact grows_of_eq rfl rfl
        · exact ⟨List.prefix_append _ _, List.prefix_refl _⟩
      · exact grows_of_eq rfl rfl
  · exact hrec false
  · exact hrec true

theorem step_grows {l : Lbl V} (ht : step c s l = some t) : Grows s t := by
  cases l with
  | attempt i =>
    obtain ⟨p, -, ht⟩ := Option.bind_eq_some_iff.1 ht
    split at ht
    · cases ht
      exact attempt_grows c s i p
    · cases ht
  | own i e =>
    obtain ⟨p, -, ht⟩ := Option.bind_eq_some_iff.1 ht
    obtain ⟨q, -, rfl⟩ := Option.map_eq_some_iff.1 ht
    exact grows_of_eq rfl rfl
  | close =>
    cases ht
    unfold close
    split <;> exact grows_of_eq rfl rfl
  | _ =>
    cases ht
    exact grows_of_eq rfl rfl

/-- The channel is a bounded lossless FIFO: the buffer holds at most `c` values; what was popped
is a prefix of what was pushed; a send has pushed its value once if it has returned `true`,
and nothing otherwise; what is in the buffer stays there, in order and whether or not the
channel is closed meanwhile, until it is popped; and a receiver that comes pops it, closed or not. -/
def Fifo (c : Nat) (s : St V) : Prop :=
  s.buffer.length ≤ c ∧ s.popped <+: s.pushed ∧
  (∀ i p v, s.calls[i]? = some p → p.kind = .send v →
    s.pushedBy i = if p.phase = .done .ok then [(i, v)] else []) ∧
  (∀ ls t, (lts V c).Run s ls t → ∃ l, t.popped = s.popped ++ l ∧ s.buffer <+: l ++ t.buffer) ∧
  ∀ i p m rest, s.calls[i]? = some p → p.kind = .receive → p.phase = .attempt → s.buffer = m :: rest →
    ∃ t, step c s (.attempt i) = some t ∧ t.popped = s.popped ++ [m] ∧ t.buffer = rest

theorem fifo_of_reachable (hc : c < 2147483647) (hr : (lts V c).Reachable s) : Fifo c s := by
  have h := (lossless_inductive V hc).reachable s hr
  refine ⟨h.bound, ⟨s.buffer, h.order.symm⟩, fun i p v hp hk => ?_, fun ls t hrun => ?_,
    fun i p m rest hp hk ha hb => ?_⟩
  · have hs := h.sent i p.sent (by rw [List.getElem?_map, hp]; rfl)
    rw [hs]
    split
    · rename_i hd
      have hv : p.sent = some v := by
        unfold Call.sent
        rw [hk, hd]
      rw [hv]
      rfl
    · rename_i hd
      rw [sent_none fun h => absurd h hd]
      rfl
  · have ht := (lossless_inductive V hc).reachable t (hr.run hrun)
    have hg : Grows s t := hrun.keeps (P := Grows s) (fun _ _ _ h hst => h.trans (step_grows hst))
      (grows_of_eq rfl rfl)
    obtain ⟨l, hl⟩ := hg.popped
    have hp := hg.pushed
    rw [h.order, ht.order, ← hl, List.append_assoc, List.prefix_append_right_inj] at hp
    exact ⟨l, hl.symm, hp⟩
  · refine ⟨attempt c s i p, ?_, ?_, ?_⟩
    · show s.calls[i]?.bind _ = _
      rw [hp]
      exact if_pos ha
    · unfold attempt attemptReceive
      rw [hk, hb]
      rfl
    · unfold attempt attemptReceive
      rw [hk, hb]
      rfl

/-- **Counterexample.** The constructor accepts the largest `int32_t`. One more is negative, and the
rounding of the size it is extended to does not end. -/
theorem largest_capacity_hangs : construct 2147483647 = .ok 2147483647 ∧ ring 2147483647 = none := by
  decide +kernel

/-- **A bounded lossless FIFO.** A channel of a capacity that the constructor accepts is made and
is a FIFO in every reachable state, if and only if the capacity is not the largest one. -/
theorem thread_fifo (V : Type) (n : Int) (c : Nat) (h : construct n = .ok c) :
    ((ring c).isSome ∧ ∀ s : St V, (lts V c).Reachable s → Fifo c s) ↔ n ≠ 2147483647 := by
  unfold construct at h
  split at h
  · cases h
  cases h
  refine ⟨?_, fun hn => ?_⟩
  · rintro ⟨hring, -⟩ rfl
    exact absurd hring (by decide +kernel)
  · have hc : n.toNat < 2147483647 := by omega
    refine ⟨?_, fun s hr => fifo_of_reachable hc hr⟩
    rw [ring_eq hc]
    exact CircularBuffer.isSome_slots (by omega)

/-- Two values are sent, the second after it had to wait, and the channel is closed: the
second can still be received. -/
theorem thread_fifo_closed : ∃ s : St Nat, s.closed = true ∧ s.pushed = [(0, 7), (1, 8)] ∧
    s.pushedBy 1 = [(1, 8)] ∧ ∃ t, step 1 s (.attempt 3) = some t ∧ t.popped = [(0, 7), (1, 8)] := by
  obtain ⟨s, hr, h1, h2, h3, h4, h5, h6⟩ := LTS.exists_from (f := step 1)
    (P := fun s : St Nat => s.closed = true ∧ s.pushed = [(0, 7), (1, 8)] ∧ s.popped = [(0, 7)] ∧
      s.buffer = [(1, 8)] ∧ s.calls[3]? = some ⟨.receive, .attempt, false, false, none⟩ ∧
      s.calls[1]? = some ⟨.send 8, .done .ok, false, false, none⟩) start
    [.call (.send 7) none, .attempt 0, .call (.send 8) none, .attempt 1, .own 1 .suspend,
      .call .receive none, .attempt 2, .own 1 .deliver, .own 1 .wake, .attempt 1, .close, .call .receive none]
    (by decide +kernel)
  obtain ⟨-, -, hs, -, ha⟩ := ((thread_fifo Nat 1 1 rfl).2 (by decide)).2 s hr
  obtain ⟨t, ht, hpop, -⟩ := ha 3 _ _ _ h5 rfl rfl h4
  rw [h3] at hpop
  exact ⟨s, h1, h2, hs 1 _ 8 h6 rfl, t, ht, hpop⟩

end PhpAsync.L2.ThreadChannel
