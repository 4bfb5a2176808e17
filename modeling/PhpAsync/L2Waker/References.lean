import Mathlib.Data.List.Nodup
import PhpAsync.L2Waker.Model

/-!
# Waking one waiter does not disarm another

A reference of an event belongs to the waker that added it. The code does not record
this: a stop takes a reference whoever calls it. So a waker may call `stop` only on events
it has started, and there are two ways to call it on others: the loop that starts the
events ends in the middle when the replay of a closed event settles the wait, and the
cleanup then stops all of them; and a waker may be cleaned or queued before its coroutine
suspends.

**Hypotheses (`InOrder`, about the state before the step).**
* When a coroutine suspends that is not in the queue, no open event stands behind a closed
  one whose replay settles the wait.
* Nobody resumes, settles, enqueues or cleans a waker between the registration of an event
  and the suspension, unless `events_stopped` is still set, also where that would stop nothing.

**Results.**
* `replay_disarms`: the counterexamples.
* `waiters_stay_armed`: under the hypotheses no waker takes more references than it added,
  and an open event somebody waits for has one.
-/
namespace PhpAsync.L2.Wakers

open PhpAsync.Core Function
open PhpAsync.L2.Coroutine (Status)

/-! ## Hypotheses -/

/-- Nothing was registered since the last suspension, or nothing will be stopped. -/
def Begun (s : St) (w : Nat) : Prop := (s.wakers w).unstarted = false ∨ (s.wakers w).stopped = true

/-- No open event behind a closed one whose replay settles the wait. -/
def SettlesLast (s : St) (settles : Nat → Bool) (es : List Nat) : Prop :=
  es.Pairwise fun a b => (s.events a).closed = true → settles a = true → (s.events b).closed = true

def InOrder (s : St) : Lbl → Prop
  | .suspend w _ settles =>
    (s.wakers w).status.inQueue = true ∨
      SettlesLast s (fun e => decide (e ∈ settles)) (s.wakers w).events
  | .resume w _ | .settle w | .enqueue w | .clean w => Begun s w
  | _ => True

instance (s : St) (w : Nat) : Decidable (Begun s w) := inferInstanceAs (Decidable (_ ∨ _))

instance (s : St) (settles : Nat → Bool) (es : List Nat) : Decidable (SettlesLast s settles es) :=
  inferInstanceAs (Decidable (es.Pairwise _))

instance (s : St) : ∀ l, Decidable (InOrder s l)
  | .suspend _ _ _ => inferInstanceAs (Decidable (_ ∨ _))
  | .resume w _ | .settle w | .enqueue w | .clean w => inferInstanceAs (Decidable (Begun s w))
  | .listen _ _ | .process _ | .wake _ | .close _ _ => inferInstanceAs (Decidable True)

/-! ## Fields -/

section Fields

variable (s : St) (e w : Nat) (x : Event) (y : Waker)

@[simp] theorem setEvent_events : (s.setEvent e x).events = update s.events e x := rfl
@[simp] theorem setEvent_wakers : (s.setEvent e x).wakers = s.wakers := rfl
@[simp] theorem setWaker_events : (s.setWaker w y).events = s.events := rfl
@[simp] theorem setWaker_same : (s.setWaker w y).wakers w = y := update_self ..

theorem setWaker_setWaker (z : Waker) : (s.setWaker w y).setWaker w z = s.setWaker w z :=
  congrArg (fun f => { s with wakers := f }) (update_idem ..)

theorem setWaker_ne {v : Nat} (h : v ≠ w) : (s.setWaker w y).wakers v = s.wakers v :=
  update_of_ne h ..

end Fields

theorem stop_closed (x : Event) : x.stop.closed = x.closed := by
  unfold Event.stop
  split
  · rfl
  · split <;> rfl

theorem start_closed (x : Event) (fails : Bool) : (x.start fails).closed = x.closed := by
  unfold Event.start
  split
  · rfl
  split
  · rfl
  split <;> rfl

/-! ## References -/

/-- `h` lists the wakers that have added a reference and not taken it back; while the event
is open, these are its references. -/
def Counted (s : St) : Prop :=
  ∀ e, ∃ h : List Nat, ((s.events e).closed = false → (s.events e).refs = h.length) ∧
    ∀ w, h.count w + (s.wakers w).stops e = (s.wakers w).starts e

/-- `w` has a reference of `e` to give back. -/
def Armed (s : St) (w e : Nat) : Prop :=
  (s.events e).closed = true ∨ (s.wakers w).stops e < (s.wakers w).starts e

/-- A stop of `e` by `w` takes nobody else's reference. -/
def Safe (s : St) (w e : Nat) : Prop := Armed s w e ∨ (s.events e).refs = 0

variable {x : Event} {y : Waker}

section References

variable {s t u : St} {w e d : Nat} {es : List Nat}

theorem Counted.refs_pos (hc : Counted s) (ha : Armed s w e) (ho : (s.events e).closed = false) :
    0 < (s.events e).refs := by
  obtain ⟨h, hrefs, hcount⟩ := hc e
  have hlt : (s.wakers w).stops e < (s.wakers w).starts e :=
    ha.resolve_left (ho ▸ Bool.false_ne_true)
  have := hrefs ho
  have := hcount w
  have := List.count_le_length (a := w) (l := h)
  omega

/-- Only events and the waker `w` have been touched. -/
structure Only (w : Nat) (s t : St) : Prop where
  counted : Counted t
  closed : ∀ e, (t.events e).closed = (s.events e).closed
  other : ∀ v, v ≠ w → t.wakers v = s.wakers v

theorem Only.refl (hc : Counted s) : Only w s s := ⟨hc, fun _ => rfl, fun _ _ => rfl⟩

theorem Only.trans (h : Only w s u) (h' : Only w u t) : Only w s t :=
  ⟨h'.counted, fun e => (h'.closed e).trans (h.closed e), fun v hv => (h'.other v hv).trans (h.other v hv)⟩

theorem Counted.setWaker (hc : Counted s) (hy : (y.starts, y.stops) = ((s.wakers w).starts, (s.wakers w).stops)) :
    Only w s (s.setWaker w y) := by
  rw [Prod.mk.injEq] at hy
  refine ⟨fun e => ?_, fun _ => rfl, fun v hv => setWaker_ne _ _ _ hv⟩
  obtain ⟨h, hrefs, hcount⟩ := hc e
  refine ⟨h, hrefs, fun v => ?_⟩
  by_cases hv : v = w
  · subst hv
    rw [setWaker_same, hy.1, hy.2]
    exact hcount v
  · rw [setWaker_ne _ _ _ hv]
    exact hcount v

/-! ## Starts and stops -/

/-- `w` has called `start` or `stop` on the events `es`. -/
structure Ran (w : Nat) (es : List Nat) (s t : St) : Prop extends Only w s t where
  same : ∃ f g, t.wakers w = { s.wakers w with starts := f, stops := g }
  apart : ∀ e, e ∉ es → t.events e = s.events e ∧ (t.wakers w).starts e = (s.wakers w).starts e ∧
    (t.wakers w).stops e = (s.wakers w).stops e

theorem Ran.refl (hc : Counted s) : Ran w es s s := ⟨.refl hc, ⟨_, _, rfl⟩, fun _ _ => ⟨rfl, rfl, rfl⟩⟩

theorem Ran.cons (h₁ : Ran w [e] s u) (h : Ran w es u t) : Ran w (e :: es) s t := by
  obtain ⟨f, g, hf⟩ := h.same
  obtain ⟨f₁, g₁, hf₁⟩ := h₁.same
  refine ⟨h₁.toOnly.trans h.toOnly, ⟨f, g, by rw [hf, hf₁]⟩, fun d hd => ?_⟩
  rw [List.mem_cons, not_or] at hd
  obtain ⟨ha, hb, hc⟩ := h.apart d hd.2
  obtain ⟨ha₁, hb₁, hc₁⟩ := h₁.apart d fun hm => hd.1 (List.mem_singleton.1 hm)
  exact ⟨ha.trans ha₁, hb.trans hb₁, hc.trans hc₁⟩

theorem Ran.armed (h : Ran w es s t) (hd : d ∉ es) : Armed t w d ↔ Armed s w d := by
  obtain ⟨he, hs, hp⟩ := h.apart d hd
  rw [Armed, he, hs, hp, Armed]

theorem Ran.safe (h : Ran w es s t) (hd : d ∉ es) : Safe t w d ↔ Safe s w d := by
  rw [Safe, h.armed hd, (h.apart d hd).1, Safe]

/-- A call that adds no reference and takes none. -/
theorem Counted.idle (hc : Counted s) (hx : x.closed = (s.events e).closed)
    (ho : (s.events e).closed = false → x.refs = (s.events e).refs) : Ran w [e] s (s.setEvent e x) := by
  refine ⟨⟨fun d => ?_, fun d => ?_, fun _ _ => rfl⟩, ⟨_, _, rfl⟩, fun d hd => ?_⟩
  · obtain ⟨h, hrefs, hcount⟩ := hc d
    refine ⟨h, fun hd => ?_, hcount⟩
    by_cases hde : d = e
    · subst hde
      simp only [setEvent_events, update_self, hx] at hd ⊢
      exact (ho hd).trans (hrefs hd)
    · simp only [setEvent_events, update_of_ne hde] at hd ⊢
      exact hrefs hd
  · by_cases hde : d = e
    · simp [hde, hx]
    · simp [update_of_ne hde]
  · simp [update_of_ne (List.ne_of_not_mem_cons hd)]

/-- A call of `w` on the open event `e`: those who have a reference are `h` before it and `k h`
behind it. -/
theorem Counted.call (hc : Counted s) (hx : x.closed = (s.events e).closed) (ho : (s.events e).closed = false)
    (hy : ∃ f g, y = { s.wakers w with starts := f, stops := g })
    (hne : ∀ d, d ≠ e → y.starts d = (s.wakers w).starts d ∧ y.stops d = (s.wakers w).stops d) (k : List Nat → List Nat)
    (hk : ∀ h, (s.events e).refs = h.length → h.count w + (s.wakers w).stops e = (s.wakers w).starts e →
      x.refs = (k h).length ∧ (k h).count w + y.stops e = y.starts e ∧ ∀ v, v ≠ w → (k h).count v = h.count v) :
    Ran w [e] s ((s.setEvent e x).setWaker w y) := by
  refine ⟨⟨fun d => ?_, fun d => ?_, fun v hv => setWaker_ne _ _ _ hv⟩, by simpa using hy, fun d hd => ?_⟩
  · obtain ⟨h, hrefs, hcount⟩ := hc d
    by_cases hde : d = e
    · subst hde
      obtain ⟨hlen, hw, hv⟩ := hk h (hrefs ho) (hcount w)
      refine ⟨k h, fun _ => by simpa using hlen, fun v => ?_⟩
      by_cases hvw : v = w
      · rw [hvw, setWaker_same]
        exact hw
      · rw [setWaker_ne _ _ _ hvw, hv v hvw]
        exact hcount v
    · refine ⟨h, by simpa [update_of_ne hde] using hrefs, fun v => ?_⟩
      by_cases hvw : v = w
      · rw [hvw, setWaker_same, (hne d hde).1, (hne d hde).2]
        exact hcount w
      · rw [setWaker_ne _ _ _ hvw]
        exact hcount v
  · by_cases hde : d = e
    · simp [hde, hx]
    · simp [update_of_ne hde]
  · have hde := List.ne_of_not_mem_cons hd
    simpa [update_of_ne hde] using hne d hde

theorem stopEvent_ran (hc : Counted s) (hs : Safe s w e) : Ran w [e] s (stopEvent w s e) := by
  unfold stopEvent
  dsimp only
  split
  · rename_i hopen
    obtain ⟨ho, hpos⟩ := hopen
    have hlt : (s.wakers w).stops e < (s.wakers w).starts e := by
      rcases hs with (hcl | hlt) | hz
      · rw [ho] at hcl
        cases hcl
      · exact hlt
      · omega
    have hstop : (s.events e).stop.refs = (s.events e).refs - 1 := by grind [Event.stop]
    refine hc.call (stop_closed _) ho ⟨_, _, rfl⟩ (fun d hd => ⟨rfl, update_of_ne hd ..⟩) (·.erase w)
      fun h hrefs hcount => ?_
    -- the reference that goes is one of `w`
    have hmem : w ∈ h := List.count_pos_iff.1 (by omega)
    refine ⟨by rw [hstop, hrefs, List.length_erase_of_mem hmem], ?_, fun v hv => List.count_erase_of_ne hv⟩
    simp only [List.count_erase_self, update_self]
    omega
  · rename_i hopen
    refine hc.idle (stop_closed _) fun ho => ?_
    have hz : (s.events e).refs = 0 := Nat.eq_zero_of_not_pos fun hpos => hopen ⟨ho, hpos⟩
    rw [Event.stop, if_pos hz]

theorem stopAll_ran (es : List Nat) (hnd : es.Nodup) (hc : Counted s) (hs : ∀ e ∈ es, Safe s w e) :
    Ran w es s (es.foldl (stopEvent w) s) := by
  induction es generalizing s with
  | nil => exact .refl hc
  | cons e es ih =>
    obtain ⟨hnot, hnd⟩ := List.nodup_cons.1 hnd
    have h₁ := stopEvent_ran hc (hs e List.mem_cons_self)
    refine h₁.cons (ih hnd h₁.counted fun d hd => (h₁.safe fun hde => ?_).2 (hs d (List.mem_cons_of_mem _ hd)))
    exact hnot (List.mem_singleton.1 hde ▸ hd)

theorem Counted.stops_le (hc : Counted s) : (s.wakers w).stops e ≤ (s.wakers w).starts e := by
  obtain ⟨h, -, hcount⟩ := hc e
  have := hcount w
  omega

theorem startEvent_ran (hc : Counted s) (ho : (s.events e).closed = false) (fails : Bool) :
    Ran w [e] s (startEvent s w e fails).1 ∧ Safe (startEvent s w e fails).1 w e ∧
      ((startEvent s w e fails).2 = false → Armed (startEvent s w e fails).1 w e) := by
  have hle := hc.stops_le (w := w) (e := e)
  unfold startEvent
  dsimp only
  split
  · rename_i hok
    have hstart : ((s.events e).start fails).refs = (s.events e).refs + 1 := by grind [Event.start]
    have harmed : Armed ((s.setEvent e ((s.events e).start fails)).setWaker w { s.wakers w with
        starts := update (s.wakers w).starts e ((s.wakers w).starts e + 1) }) w e := by
      refine .inr ?_
      simp only [setWaker_same, update_self]
      omega
    refine ⟨hc.call (start_closed _ _) ho ⟨_, _, rfl⟩ (fun d hd => ⟨update_of_ne hd .., rfl⟩) (w :: ·)
      fun h hrefs hcount => ⟨?_, ?_, fun v hv => List.count_cons_of_ne (Ne.symm hv)⟩, .inl harmed, fun _ => harmed⟩
    · rw [hstart, hrefs, List.length_cons]
    · simp only [List.count_cons_self, update_self]
      omega
  · rename_i hok
    have hstart : (s.events e).refs = 0 ∧ (s.events e).start fails = s.events e := by grind [Event.start]
    rw [hstart.2]
    refine ⟨hc.idle rfl fun _ => rfl, .inr ?_, fun hf => ?_⟩
    · simpa using hstart.1
    · simp [ho] at hf

/-- What cleaning the events of `w` does. -/
structure Cleaned (w : Nat) (s t : St) : Prop extends Only w s t where
  events : (t.wakers w).events = []
  unstarted : (t.wakers w).unstarted = false
  asleep : (t.wakers w).asleep = (s.wakers w).asleep
  due : (t.wakers w).due = (s.wakers w).due

theorem Cleaned.after (h : Cleaned w u t) (ho : Only w s u)
    (hu : ((u.wakers w).asleep, (u.wakers w).due) = ((s.wakers w).asleep, (s.wakers w).due)) : Cleaned w s t := by
  rw [Prod.mk.injEq] at hu
  exact ⟨ho.trans h.toOnly, h.events, h.unstarted, h.asleep.trans hu.1, h.due.trans hu.2⟩

theorem cleanEvents_cleaned (hc : Counted s) (hnd : (s.wakers w).events.Nodup)
    (hs : (s.wakers w).stopped = true ∨ ∀ e ∈ (s.wakers w).events, Safe s w e) :
    Cleaned w s (cleanEvents s w) ∧ ((cleanEvents s w).wakers w).status = (s.wakers w).status := by
  unfold cleanEvents
  split
  · exact ⟨⟨hc.setWaker rfl, by simp, by simp, by simp, by simp⟩, by simp⟩
  · rename_i hst
    have h := stopAll_ran _ hnd hc (hs.resolve_left hst)
    obtain ⟨f, g, hf⟩ := h.same
    refine ⟨⟨h.toOnly.trans (h.counted.setWaker rfl), by simp, by simp, ?_, ?_⟩, ?_⟩
    all_goals simp [hf]

theorem clean_cleaned (hc : Counted s) (hnd : (s.wakers w).events.Nodup)
    (hs : (s.wakers w).stopped = true ∨ ∀ e ∈ (s.wakers w).events, Safe s w e) :
    Cleaned w s (clean s w) ∧ ((clean s w).wakers w).status = .noStatus := by
  obtain ⟨h, -⟩ := cleanEvents_cleaned hc hnd hs
  refine ⟨⟨h.toOnly.trans (h.counted.setWaker rfl), ?_, ?_, ?_, ?_⟩, by simp [clean]⟩
  · simpa [clean] using h.events
  · simpa [clean] using h.unstarted
  · simpa [clean] using h.asleep
  · simpa [clean] using h.due

theorem settle_cleaned (hc : Counted s) (hnd : (s.wakers w).events.Nodup)
    (hs : (s.wakers w).status ≠ .noStatus)
    (hsafe : (s.wakers w).stopped = true ∨ ∀ e ∈ (s.wakers w).events, Safe s w e) :
    Cleaned w s (settle s w) ∧ ((settle s w).wakers w).status = .result := by
  unfold settle
  rw [if_neg hs]
  have ho : Only w s (s.setWaker w { s.wakers w with status := .result }) := hc.setWaker rfl
  obtain ⟨h, hstat⟩ := cleanEvents_cleaned (w := w) ho.counted (by simpa using hnd) (by simpa [Safe, Armed] using hsafe)
  exact ⟨h.after ho (by simp), by simpa using hstat⟩

/-- What the loop over `es` does when no replay settles the wait. -/
structure Started (w : Nat) (es : List Nat) (s t : St) : Prop extends Ran w es s t where
  safe : ∀ e ∈ es, Safe t w e

/-- The loop settles the wait, and everything is cleaned; or it starts what is open. -/
theorem startLoop_spec (fails settles : Nat → Bool) (es done : List Nat) (hc : Counted s)
    (hev : (s.wakers w).events = done ++ es) (hnd : (s.wakers w).events.Nodup)
    (hdone : ∀ e ∈ done, Safe s w e)
    (hlast : (s.wakers w).status = .waiting → SettlesLast s settles es) :
    (Cleaned w s (startLoop w fails settles es s).1 ∧
      ((startLoop w fails settles es s).1.wakers w).status = .result) ∨
    Started w es s (startLoop w fails settles es s).1 ∧
      ((startLoop w fails settles es s).2 = false → ∀ e ∈ es, Armed (startLoop w fails settles es s).1 w e) := by
  induction es generalizing s done with
  | nil => exact .inr ⟨⟨.refl hc, nofun⟩, fun _ => nofun⟩
  | cons e es ih =>
    have hapart := hnd
    rw [hev] at hapart
    have hnot : e ∉ es := (List.nodup_cons.1 (List.nodup_append.1 hapart).2.1).1
    -- one event of the loop, then the others
    have hnext : ∀ u, Ran w [e] s u → Safe u w e →
        (Cleaned w s (startLoop w fails settles es u).1 ∧
          ((startLoop w fails settles es u).1.wakers w).status = .result) ∨
        Started w (e :: es) s (startLoop w fails settles es u).1 ∧
          (Armed u w e → (startLoop w fails settles es u).2 = false →
            ∀ d ∈ e :: es, Armed (startLoop w fails settles es u).1 w d) := by
      intro u h₁ hsafe
      obtain ⟨f, g, hf⟩ := h₁.same
      have hdone' : ∀ d ∈ done ++ [e], Safe u w d := by grind [h₁.safe]
      have hlast' : (u.wakers w).status = .waiting → SettlesLast u settles es := by
        intro hw
        rw [hf] at hw
        simpa [SettlesLast, h₁.closed] using (List.pairwise_cons.1 (hlast hw)).2
      have hsplit : (u.wakers w).events = (done ++ [e]) ++ es := by
        rw [hf]
        simp [hev]
      rcases ih (done ++ [e]) h₁.counted hsplit (by rw [hf]; exact hnd) hdone' hlast' with ⟨h, hst⟩ | ⟨h, harm⟩
      · exact .inl ⟨h.after h₁.toOnly (by rw [hf]), hst⟩
      · refine .inr ⟨⟨h₁.cons h.toRan, ?_⟩, fun ha hflag => ?_⟩
        · exact List.forall_mem_cons.2 ⟨(h.toRan.safe hnot).2 hsafe, h.safe⟩
        · exact List.forall_mem_cons.2 ⟨(h.toRan.armed hnot).2 ha, harm hflag⟩
    unfold startLoop
    split
    · rename_i hclosed
      split
      · -- the replay settles the wait; behind it everything is closed
        rename_i hset
        have hrest := (List.pairwise_cons.1 (hlast hset.2)).1
        refine .inl (settle_cleaned hc hnd (by rw [hset.2]; decide) (.inr fun d hd => ?_))
        rw [hev, List.mem_append, List.mem_cons] at hd
        rcases hd with hd | rfl | hd
        · exact hdone d hd
        · exact .inl (.inl hclosed)
        · exact .inl (.inl (hrest d hd hclosed hset.1))
      · exact (hnext s (.refl hc) (.inl (.inl hclosed))).imp_right fun h => ⟨h.1, h.2 (.inl hclosed)⟩
    · rename_i hopen
      obtain ⟨h₁, hsafe, harm₁⟩ := startEvent_ran (w := w) hc (Bool.eq_false_iff.2 hopen) (fails e)
      refine (hnext _ h₁ hsafe).imp_right fun h => ⟨h.1, fun hflag => ?_⟩
      obtain ⟨hflag₁, hflag₂⟩ := Bool.or_eq_false_iff.1 hflag
      exact h.2 (harm₁ hflag₁) hflag₂

end References

/-! ## Steps -/

/-- What is known of one waker: the events it has registered before its last suspension
are armed until they are stopped, and somebody asleep has not registered any since. -/
structure Own (s : St) (w : Nat) : Prop where
  nodup : (s.wakers w).events.Nodup
  held : (s.wakers w).unstarted = false → (s.wakers w).stopped = false →
    ∀ e ∈ (s.wakers w).events, Armed s w e
  asleep : (s.wakers w).asleep = true → (s.wakers w).unstarted = false ∧
    ((s.wakers w).status = .waiting → (s.wakers w).stopped = false)
  due : (s.wakers w).due = true → Begun s w ∧ (s.wakers w).status ≠ .waiting

structure Sound (s : St) : Prop where
  counted : Counted s
  own : ∀ w, Own s w

section Steps

variable {s t : St} {w : Nat}

theorem Own.congr (h : Own s w) (hw : t.wakers w = s.wakers w)
    (hc : ∀ e, (s.events e).closed = true → (t.events e).closed = true) : Own t w where
  nodup := hw ▸ h.nodup
  held hu hs e he := by
    rw [hw] at hu hs he
    unfold Armed
    rw [hw]
    exact (h.held hu hs e he).imp_left (hc e)
  asleep := hw ▸ h.asleep
  due hd := by
    unfold Begun
    rw [hw] at hd ⊢
    exact h.due hd

/-- A step that touches one waker only. -/
theorem Sound.one (h : Sound s) (ho : Only w s t) (hw : Own t w) : Sound t where
  counted := ho.counted
  own v := by
    by_cases hv : v = w
    · exact hv ▸ hw
    · exact (h.own v).congr (ho.other v hv) fun e he => (ho.closed e).trans he

theorem Own.safe (h : Own s w) (hb : Begun s w) :
    (s.wakers w).stopped = true ∨ ∀ e ∈ (s.wakers w).events, Safe s w e := by
  cases hs : (s.wakers w).stopped with
  | true => exact .inl rfl
  | false => grind [h.held, Begun, Safe]

/-- A step that touches the status of one waker only. -/
theorem Sound.touch (h : Sound s)
    (hy : (y.starts, y.stops, y.events, y.stopped, y.unstarted) = ((s.wakers w).starts, (s.wakers w).stops,
      (s.wakers w).events, (s.wakers w).stopped, (s.wakers w).unstarted))
    (ha : y.asleep = true → (s.wakers w).asleep = true) (hst : y.asleep = true ∨ y.due = true → y.status ≠ .waiting)
    (hd : y.due = true → Begun s w) : Sound (s.setWaker w y) := by
  have hown := h.own w
  simp only [Prod.mk.injEq] at hy
  obtain ⟨hs, hp, he, hstop, hu⟩ := hy
  refine h.one (h.counted.setWaker (by rw [hs, hp])) ⟨?_, fun hun hnst e hmem => ?_, fun has => ?_, fun hdue => ?_⟩
  · simpa [he] using hown.nodup
  · simp only [setWaker_same, he, hstop, hu] at hun hnst hmem
    simpa [Armed, hs, hp] using hown.held hun hnst e hmem
  · grind [setWaker_same, hown.asleep]
  · rw [setWaker_same] at hdue ⊢
    exact ⟨by simpa [Begun, hstop, hu] using hd hdue, hst (.inr hdue)⟩

theorem Sound.cleaned (h : Sound s) (hc : Cleaned w s t) (hst : (t.wakers w).status ≠ .waiting) : Sound t := by
  refine h.one hc.toOnly ⟨?_, fun _ _ e he => ?_, fun _ => ⟨hc.unstarted, fun h => absurd h hst⟩,
    fun _ => ⟨.inl hc.unstarted, hst⟩⟩
  · rw [hc.events]
    exact List.nodup_nil
  · rw [hc.events] at he
    cases he

theorem Sound.cleanEvents (h : Sound s) (hb : Begun s w) (hst : (s.wakers w).status ≠ .waiting) :
    Sound (cleanEvents s w) := by
  obtain ⟨hc, hstat⟩ := cleanEvents_cleaned h.counted (h.own w).nodup ((h.own w).safe hb)
  exact h.cleaned hc (by rw [hstat]; exact hst)

theorem Sound.clean (h : Sound s) (hb : Begun s w) : Sound (clean s w) := by
  obtain ⟨hc, hst⟩ := clean_cleaned h.counted (h.own w).nodup ((h.own w).safe hb)
  exact h.cleaned hc (by rw [hst]; exact Status.noConfusion)

/-- The bulk stop before a coroutine is put into the queue. -/
theorem stopWakerEvents_only (hc : Counted s) (hnd : (s.wakers w).events.Nodup)
    (hs : (s.wakers w).stopped = true ∨ ∀ e ∈ (s.wakers w).events, Safe s w e) :
    Only w s (stopWakerEvents s w) ∧
      ∃ f g, (stopWakerEvents s w).wakers w = { s.wakers w with stopped := true, starts := f, stops := g } := by
  unfold stopWakerEvents
  split
  · rename_i hst
    exact ⟨.refl hc, (s.wakers w).starts, (s.wakers w).stops, by rw [← hst]⟩
  · rename_i hst
    have h := stopAll_ran _ hnd hc (hs.resolve_left hst)
    obtain ⟨f, g, hf⟩ := h.same
    exact ⟨h.toOnly.trans (h.counted.setWaker rfl), f, g, by simp [hf]⟩

theorem Sound.stopWakerEvents (h : Sound s) (hb : Begun s w) (hst : (s.wakers w).status ≠ .waiting) :
    Sound (stopWakerEvents s w) := by
  have hown := h.own w
  obtain ⟨ho, f, g, hf⟩ := stopWakerEvents_only h.counted hown.nodup (hown.safe hb)
  refine h.one ho ⟨?_, fun _ hs => ?_, fun ha => ?_, fun _ => ⟨.inr ?_, ?_⟩⟩
  · rw [hf]
    exact hown.nodup
  · rw [hf] at hs
    cases hs
  · rw [hf] at ha ⊢
    exact ⟨(hown.asleep ha).1, fun hw => absurd hw hst⟩
  · rw [hf]
  · rw [hf]
    exact hst

/-- The coroutine gets the status `st`, and the rest follows. -/
theorem Sound.setStatus (h : Sound s) (hb : Begun s w) {st : Status} (hst : st ≠ .waiting) {f : St → Nat → St}
    (hf : ∀ {u : St}, Sound u → Begun u w → (u.wakers w).status ≠ .waiting → Sound (f u w)) (due : Bool) :
    Sound (f (s.setWaker w { s.wakers w with status := st, due := due }) w) := by
  refine hf (h.touch rfl id (fun _ => hst) fun _ => hb) ?_ ?_
  · simpa [Begun] using hb
  · simpa using hst

theorem Sound.enqueue (h : Sound s) (hb : Begun s w) : Sound (enqueue s w) := by
  unfold Wakers.enqueue
  split
  · exact h
  · exact h.setStatus hb Status.noConfusion Sound.stopWakerEvents (s.wakers w).due

theorem Sound.resume (h : Sound s) (hb : Begun s w) (context : Bool) : Sound (resume s w context) := by
  unfold Wakers.resume
  dsimp only
  split
  · exact h
  split
  · exact h
  split
  · exact h.touch rfl id (fun _ => Status.noConfusion) fun _ => hb
  · exact h.setStatus hb Status.noConfusion Sound.cleanEvents (s.wakers w).due

theorem Sound.settle (h : Sound s) (hb : Begun s w) : Sound (settle s w) := by
  unfold Wakers.settle
  split
  · exact h.touch rfl id (fun _ => Status.noConfusion) fun _ => hb
  · exact h.setStatus hb Status.noConfusion Sound.cleanEvents (s.wakers w).due

theorem Sound.process (h : Sound s) (hd : (s.wakers w).due = true) : Sound (process s w) := by
  obtain ⟨hb, hst⟩ := (h.own w).due hd
  exact h.setStatus hb hst Sound.cleanEvents false

theorem Sound.close (h : Sound s) (e : Nat) (byReactor : Bool) : Sound (close s e byReactor) := by
  have hcl : ∀ d, (s.events d).closed = true → ((Wakers.close s e byReactor).events d).closed = true := by
    intro d hd
    by_cases hde : d = e
    · simp [Wakers.close, hde]
    · simpa [Wakers.close, update_of_ne hde] using hd
  refine ⟨fun d => ?_, fun v => (h.own v).congr rfl hcl⟩
  obtain ⟨l, hrefs, hcount⟩ := h.counted d
  refine ⟨l, fun hd => ?_, hcount⟩
  by_cases hde : d = e
  · simp [Wakers.close, hde] at hd
  · simp only [Wakers.close, setEvent_events, update_of_ne hde] at hd ⊢
    exact hrefs hd

/-- What follows the loop in `async_scheduler_coroutine_suspend`. -/
theorem Sound.begun (h : Sound s) {r : St × Bool} {u : St} (hr : Runs s w)
    (hu : ∃ st, st ≠ .result ∧ u = s.setWaker w { s.wakers w with status := st, stopped := false, unstarted := false })
    (hspec : (Cleaned w u r.1 ∧ (r.1.wakers w).status = .result) ∨
      Started w (s.wakers w).events u r.1 ∧ (r.2 = false → ∀ e ∈ (s.wakers w).events, Armed r.1 w e)) :
    Sound (if (r.1.wakers w).status = .result then Wakers.cleanEvents r.1 w
      else if r.2 then Wakers.clean (Wakers.stopWakerEvents r.1 w) w
      else r.1.setWaker w { r.1.wakers w with asleep := true }) := by
  obtain ⟨st, hst, hu⟩ := hu
  have hou : Only w s u := by
    rw [hu]
    exact h.counted.setWaker rfl
  have hw : u.wakers w = { s.wakers w with status := st, stopped := false, unstarted := false } := by rw [hu, setWaker_same]
  rcases hspec with ⟨hc, hres⟩ | ⟨hs, harm⟩
  · have hne : (r.1.wakers w).status ≠ .waiting := by
      rw [hres]
      exact Status.noConfusion
    rw [if_pos hres]
    exact (h.cleaned (hc.after hou (by rw [hw])) hne).cleanEvents (.inl hc.unstarted) hne
  · obtain ⟨f, g, hf⟩ := hs.same
    rw [hw] at hf
    rw [if_neg (by rw [hf]; exact hst)]
    have hor := hou.trans hs.toOnly
    have hev : (r.1.wakers w).events = (s.wakers w).events := by rw [hf]
    have hnd : (r.1.wakers w).events.Nodup := hev ▸ (h.own w).nodup
    split
    · -- a start has failed: what was started is stopped again
      obtain ⟨ho, f', g', hg⟩ := stopWakerEvents_only hs.counted hnd (.inr fun e he => hs.safe e (hev ▸ he))
      obtain ⟨hclean, hstat⟩ := clean_cleaned ho.counted (by rw [hg]; exact hnd) (.inl (by rw [hg]))
      exact h.cleaned (hclean.after (hor.trans ho) (by rw [hg, hf])) (by rw [hstat]; exact Status.noConfusion)
    · rename_i hflag
      refine h.one (hor.trans (hs.counted.setWaker rfl)) ⟨?_, fun _ _ e he => ?_, fun _ => ?_, fun hd => ?_⟩
      · simpa using hnd
      · simp only [setWaker_same, hev] at he
        simpa [Armed] using harm (Bool.eq_false_iff.2 hflag) e he
      · simp [hf]
      · simp [hf, hr.2] at hd

theorem startWakerEvents_spec {st : Status} (h : Sound s) (fails settles : Nat → Bool)
    (hlast : st = .waiting → SettlesLast s settles (s.wakers w).events) :
    let u := s.setWaker w { s.wakers w with status := st, stopped := false, unstarted := false }
    let r := startLoop w fails settles (s.wakers w).events u
    (Cleaned w u r.1 ∧ (r.1.wakers w).status = .result) ∨
      Started w (s.wakers w).events u r.1 ∧ (r.2 = false → ∀ e ∈ (s.wakers w).events, Armed r.1 w e) := by
  have ho : Only w s (s.setWaker w { s.wakers w with status := st, stopped := false, unstarted := false }) :=
    h.counted.setWaker rfl
  exact startLoop_spec fails settles (s.wakers w).events [] ho.counted (by simp) (by simpa using (h.own w).nodup) nofun
    (by simpa [SettlesLast] using hlast)

theorem Sound.suspend (h : Sound s) (fails settles : Nat → Bool) (hr : Runs s w)
    (hG : (s.wakers w).status.inQueue = true ∨ SettlesLast s settles (s.wakers w).events) :
    Sound (suspend s w fails settles) := by
  have hown := h.own w
  unfold Wakers.suspend
  dsimp only
  split
  · rename_i hempty
    obtain ⟨hc, hst⟩ := clean_cleaned h.counted hown.nodup (.inr fun e he => by rw [hempty.1] at he; cases he)
    exact h.cleaned hc (by rw [hst]; exact Status.noConfusion)
  · cases hq : (s.wakers w).status.inQueue with
    | true =>
      have hst : (s.wakers w).status ≠ .result ∧ (s.wakers w).status ≠ .waiting := by
        constructor <;> intro hst <;> rw [hst] at hq <;> cases hq
      exact h.begun hr ⟨_, hst.1, rfl⟩ (startWakerEvents_spec h fails settles fun hw => absurd hw hst.2)
    | false =>
      have heq : startWakerEvents (s.setWaker w { s.wakers w with status := .waiting }) w fails settles =
          startLoop w fails settles (s.wakers w).events
            (s.setWaker w { s.wakers w with status := .waiting, stopped := false, unstarted := false }) := by
        simp [startWakerEvents, setWaker_setWaker]
      simp only [Bool.false_eq_true, if_false, heq]
      exact h.begun hr ⟨_, Status.noConfusion, rfl⟩
        (startWakerEvents_spec h fails settles fun _ => hG.resolve_left (hq ▸ Bool.false_ne_true))

theorem Sound.step {l : Lbl} (h : Sound s) (hG : InOrder s l) (hst : step s l = some t) : Sound t := by
  cases l with
  | listen w e =>
    obtain ⟨⟨hr, hnot⟩, ⟨⟩⟩ := Option.ite_none_right_eq_some.1 hst
    refine h.one (h.counted.setWaker rfl) ⟨?_, fun hu => ?_, fun ha => ?_, fun hd => ?_⟩
    · simp only [setWaker_same]
      exact List.nodup_append.2 ⟨(h.own w).nodup, List.nodup_singleton e, fun a ha b hb hab => hnot
        (List.mem_singleton.1 hb ▸ hab ▸ ha)⟩
    · simp at hu
    · simp [hr.1] at ha
    · simp [hr.2] at hd
  | suspend w fails settles =>
    obtain ⟨hr, ⟨⟩⟩ := Option.ite_none_right_eq_some.1 hst
    exact h.suspend _ _ hr hG
  | resume w context =>
    cases hst
    exact h.resume hG context
  | settle w =>
    obtain ⟨-, ⟨⟩⟩ := Option.ite_none_right_eq_some.1 hst
    exact h.settle hG
  | process w =>
    obtain ⟨hd, ⟨⟩⟩ := Option.ite_none_right_eq_some.1 hst
    exact h.process hd
  | enqueue w =>
    cases hst
    exact h.enqueue hG
  | wake w =>
    obtain ⟨⟨-, hd, -⟩, ⟨⟩⟩ := Option.ite_none_right_eq_some.1 hst
    exact h.touch rfl nofun (fun _ => Status.noConfusion) fun hdue => absurd hdue (hd ▸ Bool.false_ne_true)
  | clean w =>
    obtain ⟨-, ⟨⟩⟩ := Option.ite_none_right_eq_some.1 hst
    exact h.clean hG
  | close e byReactor =>
    cases hst
    exact h.close e byReactor

end Steps

theorem sound_inductive : (lts.restrict InOrder).Inductive Sound where
  init s hs := by
    rw [show s = start from hs]
    refine ⟨fun e => ⟨[], fun _ => rfl, fun w => rfl⟩, fun w => ⟨List.nodup_nil, fun _ _ e he => ?_, fun h => ?_, fun h => ?_⟩⟩
    · cases he
    · cases h
    · cases h
  step s l t h hst := h.step hst.1 hst.2

/-! ## Results -/

/-- **Waiters stay armed.** In every run that is in order, no waker has taken more
references of an event than it has added, and an open event that belongs to the waker of a
coroutine that waits has a reference. -/
theorem waiters_stay_armed (s : St) (hr : (lts.restrict InOrder).Reachable s) :
    (∀ w e, (s.wakers w).stops e ≤ (s.wakers w).starts e) ∧
    ∀ w e, (s.wakers w).asleep = true → (s.wakers w).status = .waiting → e ∈ (s.wakers w).events →
      (s.events e).closed = false → 0 < (s.events e).refs := by
  have h := sound_inductive.reachable s hr
  refine ⟨fun w e => h.counted.stops_le, fun w e ha hw he ho => ?_⟩
  obtain ⟨hu, hs⟩ := (h.own w).asleep ha
  exact h.counted.refs_pos ((h.own w).held hu (hs hw) e he) ho

/-- Two coroutines wait for the same event, one of them also for a closed one behind it;
the latter is settled, and the former stays armed. -/
theorem waiters_stay_armed_once :
    ∃ s : St, (s.wakers 0).asleep = true ∧ (s.wakers 1).stops 7 = 1 ∧ (s.wakers 1).starts 7 = 1 ∧
      0 < (s.events 7).refs := by
  obtain ⟨s, hr, ⟨ha, hw, he, ho⟩, hstops, hstarts⟩ := LTS.existsG_from (G := InOrder) (f := step) start
    [.listen 0 7, .suspend 0 [] [], .close 8 false, .listen 1 7, .listen 1 8, .suspend 1 [] [8]]
    (P := fun s => ((s.wakers 0).asleep = true ∧ (s.wakers 0).status = .waiting ∧ 7 ∈ (s.wakers 0).events ∧
      (s.events 7).closed = false) ∧ (s.wakers 1).stops 7 = 1 ∧ (s.wakers 1).starts 7 = 1) (by decide +kernel)
  exact ⟨s, ha, hstops, hstarts, (waiters_stay_armed s hr).2 0 7 ha hw he ho⟩

/-- **Counterexamples.** Coroutine 0 waits for the event 7. Coroutine 1 waits for the
closed event 8 and, behind it, for 7: the replay of 8 settles its wait, and the cleanup
stops 7, which it has not started. And: coroutine 1 registers 7 and is cleaned up without
having suspended. In both cases 7 is open and disarmed. -/
theorem replay_disarms :
    (∃ s, lts.Reachable s ∧ (s.wakers 0).asleep = true ∧ (s.wakers 0).status = .waiting ∧
      (s.wakers 0).events = [7] ∧ s.events 7 = ⟨0, false⟩ ∧ (s.wakers 1).starts 7 = 0 ∧
      (s.wakers 1).stops 7 = 1 ∧ (s.wakers 1).status = .result) ∧
    ∃ s, lts.Reachable s ∧ (s.wakers 0).asleep = true ∧ (s.wakers 0).status = .waiting ∧
      (s.wakers 0).events = [7] ∧ s.events 7 = ⟨0, false⟩ ∧ (s.wakers 1).starts 7 = 0 ∧
      (s.wakers 1).stops 7 = 1 ∧ (s.wakers 1).status = .noStatus := by
  constructor
  · exact LTS.exists_from (f := step) start
      [.listen 0 7, .suspend 0 [] [], .close 8 false, .listen 1 8, .listen 1 7, .suspend 1 [] [8]] (by decide +kernel)
  · exact LTS.exists_from (f := step) start
      [.listen 0 7, .suspend 0 [] [], .listen 1 7, .clean 1] (by decide +kernel)

end PhpAsync.L2.Wakers
