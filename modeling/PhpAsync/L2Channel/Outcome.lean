import PhpAsync.L2Channel.Fifo

/-!
# `Async\Channel`: what the outcome of `send()` says about the value

`send()` puts its value into the rendezvous slot before it waits, so how the
call ends and where the value is are decided in different places: a receiver may
take the value (`channel_wake_delivered_sender`), `channel_close` and a cancelled
sender withdraw it while it is uncommitted, and the wait itself can throw.

`Desk` is the part of the state these places share, with one operation for each
thing they do, and `Own` is the invariant: the value of a parked sender that is
no longer queued is not in the channel, it has not been withdrawn unless the
sender was woken with an exception, and an uncommitted value is nobody's success.

Two ways of ending break the rules, and each is excluded by a condition on the
step:

* a retried `send()` whose token fired after it was woken puts the value into the
  slot and then throws on entry of the wait (`TokenCovered`);
* `sendAsync()` reports success for a value that `close()` still withdraws
  (`CloseCovered`).

The flags of `Own` say which of the two rules is kept.
-/
namespace PhpAsync.L2.Channel

open PhpAsync.Core PhpAsync.L1

variable {V : Type}

structure Desk (V : Type) where
  live : Nat → Option (SendWait V)
  queue : List Nat
  wakers : Nat → Waker
  held : List (Msg V)
  /-- the value in the slot while it is uncommitted -/
  loose : Option (Msg V)
  log : List (Ev V)

def desk (s : St V) : Desk V where
  live := s.senders.live?
  queue := s.senders.queue
  wakers := s.wakers .send
  held := s.held
  loose := s.loose
  log := s.log

namespace Desk

def emit (d : Desk V) (e : Ev V) : Desk V := { d with log := d.log ++ [e] }

def park (d : Desk V) (w : Nat) (x : SendWait V) : Desk V where
  live i := if i = w then some x else d.live i
  queue := d.queue ++ [w]
  wakers i := if i = w then .parked else d.wakers i
  held := d.held
  loose := d.loose
  log := d.log

def leave (d : Desk V) (w : Nat) : Desk V :=
  { d with live := fun i => if w = i then none else d.live i, queue := d.queue.erase w }

end Desk

/-- Call `k` of `send()` threw in `a`, and `b` delivers its value. -/
def Late (a b : Ev V) : Prop :=
  ∃ k e m, a = .threw .send k e ∧ b.delivered? = some m ∧ m.call = k

/-- `P`: no value is delivered once its `send()` has thrown. `Q`: no value is
withdrawn once its call has reported success. -/
structure Own (P Q : Prop) (d : Desk V) : Prop where
  known : ∀ m ∈ d.held, .accepted m ∈ d.log
  dropped : ∀ m why, .rolledBack m why ∈ d.log → .accepted m ∈ d.log
  via : ∀ w x, d.live w = some x → x.msg.via = .send
  stored : ∀ w x, d.live w = some x → x.delivering = true → .accepted x.msg ∈ d.log
  taken : ∀ w x, d.live w = some x → x.delivering = true → w ∉ d.queue →
    ∀ m ∈ d.held, m.call ≠ x.msg.call
  waking : ∀ w x, d.live w = some x → x.delivering = true → w ∈ d.queue →
    (d.wakers w).queued = true → (d.wakers w).error ≠ none
  acked : ∀ w x, d.live w = some x → x.delivering = true →
    (w ∈ d.queue ∨ (d.wakers w).error = none) →
    ∀ m why, .rolledBack m why ∈ d.log → m.call ≠ x.msg.call
  loose : ∀ m, d.loose = some m → m ∈ d.held ∧ (m.via = .send → .sent m.call ∉ d.log)
  threw : P → ∀ k e, .threw .send k e ∈ d.log → ∀ m ∈ d.held, m.call ≠ k
  late : P → d.log.Pairwise fun a b => ¬ Late a b
  sent : Q → ∀ k, .sent k ∈ d.log → (∃ m, .accepted m ∈ d.log ∧ m.call = k) ∧
    ∀ m why, .rolledBack m why ∈ d.log → m.call ≠ k

/-! ## What the operations keep -/

namespace Own

variable {P Q : Prop} {d : Desk V}

/-- One more event; the conditions say what it takes for each kind. -/
theorem emit (h : Own P Q d) {e : Ev V}
    (hdrop : ∀ m why, e = .rolledBack m why → .accepted m ∈ d.log ∧
      (Q → .sent m.call ∉ d.log) ∧
      ∀ w x, d.live w = some x → x.delivering = true →
        (w ∈ d.queue ∨ (d.wakers w).error = none) → m.call ≠ x.msg.call)
    (hsent : ∀ k, e = .sent k →
      (∀ m, d.loose = some m → m.via = .send → m.call ≠ k) ∧
      (Q → (∃ m, .accepted m ∈ d.log ∧ m.call = k) ∧
        ∀ m why, .rolledBack m why ∈ d.log → m.call ≠ k))
    (hthrew : ∀ k x, e = .threw .send k x → P → ∀ m ∈ d.held, m.call ≠ k)
    (hdel : ∀ m, e.delivered? = some m → P → ∀ k x, .threw .send k x ∈ d.log → m.call ≠ k) :
    Own P Q (d.emit e) := by
  have hold : ∀ a, a ∈ (d.emit e).log → a ∈ d.log ∨ a = e := fun a ha =>
    (List.mem_append.1 ha).imp_right List.mem_singleton.1
  have hnew : ∀ a, a ∈ d.log → a ∈ (d.emit e).log := fun a ha => List.mem_append_left _ ha
  refine ⟨fun m hm => hnew _ (h.known m hm), fun m why hm => ?_, h.via,
    fun w x hx hd => hnew _ (h.stored w x hx hd), h.taken, h.waking, fun w x hx hd hq m why hm => ?_,
    fun m hm => ⟨(h.loose m hm).1, fun hv hs => ?_⟩, fun hp k x hk => ?_, fun hp => ?_,
    fun hq k hk => ?_⟩
  · grind [h.dropped]
  · rcases hold _ hm with hm | hm
    · exact h.acked w x hx hd hq m why hm
    · exact (hdrop m why hm.symm).2.2 w x hx hd hq
  · rcases hold _ hs with hs | hs
    · exact (h.loose m hm).2 hv hs
    · exact (hsent m.call hs.symm).1 m hm hv rfl
  · rcases hold _ hk with hk | hk
    · exact h.threw hp k x hk
    · exact hthrew k x hk.symm hp
  · refine List.pairwise_append.2 ⟨h.late hp, List.pairwise_singleton _ _, fun a ha b hb => ?_⟩
    rw [List.mem_singleton.1 hb]
    rintro ⟨k, x, m, rfl, hm, hc⟩
    exact hdel m hm hp k x ha hc
  · grind [h.sent]

/-- An event that says nothing about a value that leaves or about the end of a
`send()`. -/
theorem note (h : Own P Q d) {e : Ev V} (hr : e.rolledBack? = none) (hf : e.finished? = none)
    (hd : e.delivered? = none) : Own P Q (d.emit e) := by
  refine h.emit (fun m why he => ?_) (fun k he => ?_) (fun k x he => ?_) (fun m he => ?_)
  · subst he; cases hr
  · subst he; cases hf
  · subst he; cases hf
  · rw [hd] at he; cases he

/-- The call of `send()` throws. -/
theorem throw (h : Own P Q d) {k : Nat} (e : Exn) (hk : P → ∀ m ∈ d.held, m.call ≠ k) :
    Own P Q (d.emit (.threw .send k e)) := by
  refine h.emit (fun m why he => by cases he) (fun k he => by cases he) (fun k' x he => ?_)
    (fun m he => by cases he)
  cases he; exact hk

theorem finish (h : Own P Q d) {k : Nat}
    (hl : ∀ m, d.loose = some m → m.via = .send → m.call ≠ k)
    (hk : Q → (∃ m, .accepted m ∈ d.log ∧ m.call = k) ∧
      ∀ m why, .rolledBack m why ∈ d.log → m.call ≠ k) : Own P Q (d.emit (.sent k)) := by
  refine h.emit (fun m why he => by cases he) (fun k' he => ?_) (fun k x he => by cases he)
    (fun m he => by cases he)
  cases he; exact ⟨hl, hk⟩

theorem deliver (h : Own P Q d) {e : Ev V} {m : Msg V} (he : e.delivered? = some m)
    (hm : P → ∀ k x, .threw .send k x ∈ d.log → m.call ≠ k) : Own P Q (d.emit e) := by
  refine h.emit (fun n why hn => ?_) (fun k hk => ?_) (fun k x hk => ?_) (fun n hn => ?_)
  · subst hn; cases he
  · subst hk; cases he
  · subst hk; cases he
  · rw [he] at hn; cases hn; exact hm

/-- Coroutines are woken: a parked owner of a value only with an exception,
unless its value has been taken. -/
theorem wakers (h : Own P Q d) {g : Nat → Waker}
    (hg : ∀ w x, d.live w = some x → x.delivering = true → (g w).error ≠ none ∨
      (g w).error = (d.wakers w).error ∧ (w ∈ d.queue → g w = d.wakers w)) :
    Own P Q { d with wakers := g } := by
  refine { h with waking := fun w x hx hd hq hw => ?_, acked := fun w x hx hd hq => ?_ }
  · grind [h.waking]
  · refine h.acked w x hx hd (hq.imp_right fun hn => ?_)
    rcases hg w x hx hd with he | ⟨he, -⟩
    · exact absurd hn he
    · rw [← he]; exact hn

/-- A sender leaves the queue only when its value is no longer held. -/
theorem dequeue (h : Own P Q d) {q : List Nat} (hq : ∀ w ∈ q, w ∈ d.queue)
    (ht : ∀ w x, d.live w = some x → x.delivering = true → w ∈ d.queue → w ∉ q →
      ∀ m ∈ d.held, m.call ≠ x.msg.call) : Own P Q { d with queue := q } := by
  refine { h with
    taken := fun w x hx hd hw => ?_
    waking := fun w x hx hd hw => h.waking w x hx hd (hq w hw)
    acked := fun w x hx hd hw => h.acked w x hx hd (hw.imp_left (hq w)) }
  by_cases hin : w ∈ d.queue
  · exact ht w x hx hd hin hw
  · exact h.taken w x hx hd hin

/-- A value leaves the channel. -/
theorem shrink (h : Own P Q d) {l : List (Msg V)} (hl : ∀ m ∈ l, m ∈ d.held) :
    Own P Q { d with held := l, loose := none } :=
  { h with
    known := fun m hm => h.known m (hl m hm)
    taken := fun w x hx hd hw m hm => h.taken w x hx hd hw m (hl m hm)
    loose := fun m hm => (by cases hm)
    threw := fun hp k e hk m hm => h.threw hp k e hk m (hl m hm) }

/-- A value enters the channel: it has just been accepted for a call that is
neither parked nor finished. -/
theorem store (h : Own P Q d) {m : Msg V} {o : Option (Msg V)} (ho : o = some m ∨ o = none)
    (hacc : .accepted m ∈ d.log) (hlive : ∀ w x, d.live w = some x → x.msg.call ≠ m.call)
    (hsent : .sent m.call ∉ d.log) (hthrew : ∀ e, .threw .send m.call e ∉ d.log) :
    Own P Q { d with held := d.held ++ [m], loose := o } := by
  refine { h with
    known := fun n hn => ?_, taken := fun w x hx hd hw n hn => ?_,
    loose := fun n hn => ?_, threw := fun hp k e hk n hn => ?_ }
  · grind [h.known]
  · grind [h.taken]
  · grind
  · grind [h.threw]

theorem park (h : Own P Q d) {w : Nat} {x : SendWait V} (hv : x.msg.via = .send)
    (hx : x.delivering = true → .accepted x.msg ∈ d.log ∧
      ∀ m why, .rolledBack m why ∈ d.log → m.call ≠ x.msg.call) : Own P Q (d.park w x) := by
  have hlive : ∀ i y, (d.park w x).live i = some y → i = w ∧ y = x ∨ i ≠ w ∧ d.live i = some y := by grind [Desk.park]
  have hqueue : ∀ i, i ≠ w → (i ∈ (d.park w x).queue ↔ i ∈ d.queue) := by
    intro i hi
    simp only [Desk.park, List.mem_append, List.mem_singleton, hi, or_false]
  refine { h with
    via := fun i y hy => ?_
    stored := fun i y hy hd => ?_
    taken := fun i y hy hd hi => ?_
    waking := fun i y hy hd hi => ?_
    acked := fun i y hy hd hi => ?_ } <;>
    rcases hlive i y hy with ⟨rfl, rfl⟩ | ⟨hne, hy'⟩
  · exact hv
  · exact h.via i y hy'
  · exact (hx hd).1
  · exact h.stored i y hy' hd
  · exact (hi (List.mem_append_right _ (List.mem_singleton_self _))).elim
  · exact h.taken i y hy' hd (fun hin => hi ((hqueue i hne).2 hin))
  · intro hq
    simp [Desk.park, Waker.parked] at hq
  · simp only [Desk.park, hne, if_false]
    exact h.waking i y hy' hd ((hqueue i hne).1 hi)
  · exact (hx hd).2
  · refine h.acked i y hy' hd (hi.imp (hqueue i hne).1 fun hn => ?_)
    simpa only [Desk.park, hne, if_false] using hn

theorem leave (h : Own P Q d) (hn : d.queue.Nodup) (w : Nat) : Own P Q (d.leave w) := by
  have hlive : ∀ i y, (d.leave w).live i = some y → i ≠ w ∧ d.live i = some y := by grind [Desk.leave]
  have hqueue : ∀ i, i ≠ w → (i ∈ (d.leave w).queue ↔ i ∈ d.queue) := by
    intro i hi
    simp only [Desk.leave, hn.mem_erase_iff, ne_eq, hi, not_false_eq_true, true_and]
  refine { h with
    via := fun i y hy => ?_
    stored := fun i y hy => ?_
    taken := fun i y hy hd hi => ?_
    waking := fun i y hy hd hi => ?_
    acked := fun i y hy hd hi => ?_ } <;> obtain ⟨hne, hy'⟩ := hlive i y hy
  · exact h.via i y hy'
  · exact h.stored i y hy'
  · exact h.taken i y hy' hd (fun hin => hi ((hqueue i hne).2 hin))
  · exact h.waking i y hy' hd ((hqueue i hne).1 hi)
  · exact h.acked i y hy' hd (hi.imp_left (hqueue i hne).1)

end Own

/-! ## In the middle of a step -/

/-- The value of `m` was accepted and has not been withdrawn. -/
def Kept (d : Desk V) (m : Msg V) : Prop :=
  .accepted m ∈ d.log ∧ ∀ n why, .rolledBack n why ∈ d.log → n.call ≠ m.call

/-- What `Own` says of the value in hand and of the `send()` that runs. -/
structure Placed (P Q : Prop) (d : Desk V) (hand : Option (Msg V)) (call : Option (Sending V)) : Prop where
  own : Own P Q d
  clear : ∀ m ∈ hand, P → ∀ k e, .threw .send k e ∈ d.log → m.call ≠ k
  kept : ∀ k ∈ call, k.stage = .kept ∨ k.stage = .taken → Kept d k.msg
  gone : ∀ k ∈ call, k.stage = .taken ∨ k.stage = .lost → ∀ m ∈ d.held, m.call ≠ k.msg.call

section Effects

variable {P Q : Prop} {d d' : Desk V} {s : St V} {h : Option (Msg V)} {k : Option (Sending V)}

/-- No value enters, none is withdrawn and no `send()` throws. -/
theorem Placed.next {l : List (Ev V)} (hc : Placed P Q d h k) (ho : Own P Q d') (hl : d'.log = d.log ++ l)
    (hh : ∀ m ∈ d'.held, m ∈ d.held) (he : ∀ e ∈ l, e.rolledBack? = none ∧ ∀ k x, e ≠ .threw .send k x) :
    Placed P Q d' h k := by
  refine ⟨ho, fun m hm hp n e hn => ?_, fun c hk hs => ⟨?_, fun n why hn => ?_⟩, fun c hk hs m hm => ?_⟩
  · rw [hl] at hn
    exact (List.mem_append.1 hn).elim (hc.clear m hm hp n e) fun hn => ((he _ hn).2 n e rfl).elim
  · rw [hl]; exact List.mem_append_left _ (hc.kept c hk hs).1
  · rw [hl] at hn
    exact (List.mem_append.1 hn).elim ((hc.kept c hk hs).2 n why) fun hn => by cases (he _ hn).1
  · exact hc.gone c hk hs m (hh m hm)

theorem Placed.same (hc : Placed P Q d h k) (ho : Own P Q d') (hl : (d'.log, d'.held) = (d.log, d.held)) :
    Placed P Q d' h k := by
  simp only [Prod.mk.injEq] at hl
  exact hc.next (l := []) ho (by rw [hl.1, List.append_nil]) (fun m hm => hl.2 ▸ hm) nofun

theorem Placed.note (hc : Placed P Q d h k) {e : Ev V} (hr : e.rolledBack? = none) (hf : e.finished? = none)
    (hd : e.delivered? = none) : Placed P Q (d.emit e) h k := by
  refine hc.next (l := [e]) (hc.own.note hr hf hd) rfl (fun _ hm => hm) fun e' he => ?_
  rw [List.mem_singleton.1 he]
  exact ⟨hr, fun n x he => by rw [he] at hf; cases hf⟩

/-- The call of `send()` ends. -/
theorem Placed.ended (ho : Own P Q d) (hc : ∀ m ∈ h, P → ∀ k e, .threw .send k e ∈ d.log → m.call ≠ k) :
    Placed P Q d h none :=
  ⟨ho, hc, nofun, nofun⟩

/-- A wakeup without an exception. -/
theorem resume_none_waker (s : St V) (w v : Nat) :
    ((resume s .send w none).wakers .send v).error = (s.wakers .send v).error ∧
      (v ≠ w → (resume s .send w none).wakers .send v = s.wakers .send v) := by
  by_cases hv : v = w
  · simp [resume, hv]
  · simp [resume, hv]

theorem Effect.placed {c d : Cfg V} (he : Effect P Q True c d) (hg : Going c)
    (hc : Placed P Q (desk c.st) c.hand c.call) : Placed P Q (desk d.st) d.hand d.call := by
  have ho := hc.own
  cases he with
  | frame | removeRecv | leaveRecv | tick => exact hc
  | @pushRecv s h k x wakers hs =>
    have hd : desk { s with receivers := s.receivers.push x, wakers } = { desk s with wakers := wakers .send } := rfl
    rw [hd, hs]; exact hc
  | start => exact ⟨ho, hc.clear, fun k hk hs => by cases hk; simp at hs, fun k hk hs => by cases hk; simp at hs⟩
  | wake wakers hs =>
    exact hc.same (ho.wakers fun v x _ _ => (hs v).imp_right fun hv => ⟨congrArg Waker.error hv, fun _ => hv⟩) rfl
  | note he => cases he <;> exact hc.note rfl rfl rfl
  | serve | reserve => exact hc.note rfl rfl rfl
  | @take s k m hh hn =>
    have hlog := takeValue_log s
    obtain ⟨l, o, b, ht⟩ := takeValue_rest s
    rw [ht] at hh hn hlog ⊢
    have ho' : o = none := hn
    subst ho'
    have hd : desk { s with buffer := l, rendezvous := none, committed := b } =
        { desk s with held := l, loose := none } := by
      simp [desk, Chan.held, Chan.loose]
    have hh' : s.held = m :: l := by simpa [Chan.held] using hh
    have hsub : ∀ n ∈ l, n ∈ s.held := fun n hn => hh' ▸ List.mem_cons_of_mem _ hn
    have hp : Placed P Q { desk s with held := l, loose := none } none k :=
      hc.next (l := []) (ho.shrink hsub) (List.append_nil _).symm hsub (by simp)
    rw [hd]
    refine { hp with clear := fun n hn hP i e hi => ?_ }
    cases hn
    exact ho.threw hP i e hi m (by rw [show (desk s).held = m :: l from hh']; exact List.mem_cons_self)
  | @deliver s k m e he =>
    have hd := ho.deliver he (hc.clear m rfl)
    have hp : Placed P Q (desk s) none k := { hc with clear := by simp }
    refine hp.next (l := [e]) hd rfl (fun _ hm => hm) fun e' he' => ?_
    rw [List.mem_singleton.1 he']
    cases e <;> cases he <;> exact ⟨rfl, by simp⟩
  | @unpark s h k w hq hh =>
    have hd : Own P Q { desk s with queue := s.senders.queue.erase w } :=
      ho.dequeue (fun v hv => List.mem_of_mem_erase hv) fun v x _ _ _ _ m hm => by
        rw [show (desk s).held = [] from hh] at hm
        exact (List.not_mem_nil hm).elim
    refine hc.same (hd.wakers (g := (resume s .send w none).wakers .send) fun v x _ _ => .inr ?_) rfl
    obtain ⟨herr, hsame⟩ := resume_none_waker s w v
    exact ⟨herr, fun hv => hsame (hq.mem_erase.1 hv).1⟩
  | @grantSend s h k w hq hw =>
    obtain ⟨y, hy, -, hskip⟩ := WaitQueue.isFree_some (WaitQueue.first_mem hw).2
    have hd : desk (resume (emit { s with senders := s.senders.grant w } (.granted .send w)) .send w none) =
        { (desk s).emit (.granted .send w) with wakers := (resume s .send w none).wakers .send } := by
      unfold desk
      simp only [resume, emit, Desk.emit, WaitQueue.live?_grant]
      rfl
    rw [hd]
    refine (hc.note (e := .granted .send w) rfl rfl rfl).same
      ((ho.note rfl rfl rfl).wakers fun v x hx hdel => .inr ?_) rfl
    obtain ⟨herr, hsame⟩ := resume_none_waker s w v
    refine ⟨herr, fun _ => hsame ?_⟩
    rintro rfl
    obtain ⟨z, hz, -, rfl⟩ := WaitQueue.live?_some (show s.senders.live? v = some x from hx)
    rw [hy] at hz; cases hz
    rw [hdel] at hskip; cases hskip
  | @accept s h m l o b hh hl =>
    obtain ⟨hrun, hun⟩ := hg.2 _ rfl
    have hd : desk (emit { s with buffer := l, rendezvous := o, committed := b } (.accepted m)) =
        { (desk s).emit (.accepted m) with held := s.held ++ [m], loose := if b then none else o } := by
      rw [← hh]; rfl
    have hnew : ∀ e : Ev V, e ∈ s.log ++ [.accepted m] → e ≠ .accepted m → e ∈ s.log := fun e he hne =>
      (List.mem_append.1 he).resolve_right fun hm => hne (List.mem_singleton.1 hm)
    have hfin : ∀ e : Ev V, e ∈ s.log ++ [.accepted m] → e.finished? ≠ some m.call := fun e he hf =>
      hrun.unfinished (List.mem_filterMap.2 ⟨e, hnew e he (by rintro rfl; cases hf), hf⟩)
    have hmem : .accepted m ∈ s.log ++ [.accepted m] := List.mem_append_right _ (List.mem_singleton_self _)
    rw [hd]
    refine ⟨(ho.note (e := .accepted m) rfl rfl rfl).store ?_ hmem hrun.idle (fun he => hfin _ he rfl)
      fun e he => hfin _ he rfl, fun n hn hp i e hi => ?_, fun k hk _ => ?_, fun k hk hs => ?_⟩
    · rcases hl with rfl | rfl <;> cases b <;> simp
    · exact hc.clear n hn hp i e (hnew _ hi (by simp))
    · cases hk
      exact ⟨hmem, fun n why hn => hun rfl n (List.mem_filterMap.2 ⟨_, ho.dropped n why (hnew _ hn (by simp)), rfl⟩)⟩
    · cases hk; simp at hs
  | @commit s h k =>
    have hd : desk { s with committed := s.rendezvous.isSome } = { desk s with loose := none } := by
      cases hr : s.rendezvous <;> simp [desk, Chan.held, Chan.loose, hr]
    rw [hd]
    exact hc.same { ho with loose := by simp } rfl
  | @pushSend s h x hv =>
    have hd : desk (suspend { s with senders := s.senders.push x } .send s.senders.table.length) =
        (desk s).park s.senders.table.length x := by
      unfold desk Desk.park
      simp only [suspend, true_and, Desk.mk.injEq]
      exact ⟨funext fun i => WaitQueue.live?_push s.senders x i, rfl, rfl, rfl, trivial⟩
    rw [hd]
    exact .ended (ho.park (hv trivial) fun hx => hc.kept _ rfl (by simp [hx])) hc.clear
  | @leaveSend s h w x hq hx =>
    have hd : desk (leaveSender s w) = (desk s).leave w := by
      unfold desk Desk.leave
      simp only [Desk.mk.injEq]
      exact ⟨funext fun i => WaitQueue.live?_leave s.senders w i, rfl, rfl, rfl, rfl, rfl⟩
    rw [hd]
    refine ⟨ho.leave hq.nodup w, hc.clear, fun k hk hs => ?_, fun k hk hs => ?_⟩ <;> cases hk <;>
      dsimp only at hs ⊢
    · have hdel : x.delivering = true := by grind [stageOf]
      exact ⟨ho.stored w x hx hdel, ho.acked w x hx hdel (by grind [stageOf, desk, Option.isNone_iff_eq_none])⟩
    · exact ho.taken w x hx (by grind [stageOf]) (by grind [stageOf, desk])
  | @withdraw s h m hr hcm hb =>
    obtain ⟨hrun, -⟩ := hg.2 _ rfl
    have hkept := (hc.kept _ rfl (.inl rfl)).1
    have hd : desk { s with rendezvous := none } = { desk s with held := [], loose := none } := by
      simp [desk, Chan.held, Chan.loose, hb]
    have h1 : Own P Q (desk { s with rendezvous := none }) := by
      rw [hd]; exact ho.shrink fun _ hm => (List.not_mem_nil hm).elim
    refine ⟨h1.emit (fun n why he => ?_) (by simp) (by simp) (by simp [Ev.delivered?]),
      fun n hn hp i e hi => ?_, fun k hk hs => ?_, fun k hk _ n hn => ?_⟩
    · cases he
      exact ⟨hkept, fun _ hs => hrun.unfinished (List.mem_filterMap.2 ⟨_, hs, rfl⟩),
        fun w x hx _ _ hcall => hrun.idle w x hx hcall.symm⟩
    · refine hc.clear n hn hp i e ((List.mem_append.1 hi).resolve_right fun hi => ?_)
      cases List.mem_singleton.1 hi
    · cases hk; simp at hs
    · rw [show (desk (emit { s with rendezvous := none } (.rolledBack m .cancelledSender))).held = [] from
        congrArg Desk.held hd] at hn
      exact (List.not_mem_nil hn).elim
  | @shut s wakers hr hs hn =>
    have hw : Own P Q { desk s with wakers := wakers .send } := ho.wakers fun v x _ _ =>
      (hs v).imp_right fun h => ⟨congrArg Waker.error h.2, fun hin => (h.1 hin).elim⟩
    refine hc.same (hw.dequeue (fun v hv => (List.not_mem_nil hv).elim) fun v x hx hd hv _ => ?_) rfl
    rw [hn v x hv hx] at hd; cases hd
  | @shutDrop s m wakers hr hs hm hcm hb hQ =>
    have hheld : m ∈ (desk s).held := by simp [desk, Chan.held, hm]
    have hloose : (desk s).loose = some m := by simp [desk, Chan.loose, hm, hcm]
    have hd : desk { s with senders := { s.senders with queue := [] }, wakers, rendezvous := none } =
        { desk s with queue := [], wakers := wakers .send, held := [], loose := none } := by
      simp only [desk, Chan.held, Chan.loose, hb, Option.toList_none, List.append_nil, ite_self]
      rfl
    have hw : Own P Q { desk s with wakers := wakers .send } := ho.wakers fun v x _ _ =>
      (hs v).imp_right fun h => ⟨congrArg Waker.error h.2, fun hin => (h.1 hin).elim⟩
    have h1 : Own P Q (desk { s with senders := { s.senders with queue := [] }, wakers, rendezvous := none }) := by
      rw [hd]
      have hsh := hw.shrink (l := []) fun n hn => (List.not_mem_nil hn).elim
      exact hsh.dequeue (fun v hv => (List.not_mem_nil hv).elim)
        (fun _ _ _ _ _ _ n hn => (List.not_mem_nil hn).elim)
    refine .ended (h1.emit (fun n why he => ?_) (by simp) (by simp) (by simp [Ev.delivered?])) (by simp)
    cases he
    rw [hd]
    refine ⟨ho.known m hheld, fun hq => (ho.loose m hloose).2 (hQ hq), fun v x hx hdel hv => ?_⟩
    -- `v` was not queued: those that were have an exception now
    have hnone : (wakers .send v).error = none := hv.resolve_left List.not_mem_nil
    rcases hs v with he | ⟨hv', -⟩
    · exact (he hnone).elim
    · exact ho.taken v x hx hdel hv' m hheld
  | @sent s h k hk =>
    have hkept := hc.kept k rfl (hk.symm.imp_left And.left)
    refine .ended (ho.finish (fun m hm hv => ?_) fun _ => ⟨⟨_, hkept.1, rfl⟩, hkept.2⟩) fun n hn hp i e hi => ?_
    · rcases hk with ht | ⟨-, hn⟩
      · exact hc.gone k rfl (.inl ht) m (ho.loose m hm).1
      · exact hn trivial m hm hv
    · refine hc.clear n hn hp i e ((List.mem_append.1 hi).resolve_right fun hi => ?_)
      cases List.mem_singleton.1 hi
  | @refused s h m =>
    refine .ended (ho.emit (by simp) (by simp) (by simp) (by simp [Ev.delivered?])) fun n hn hp i e hi => ?_
    refine hc.clear n hn hp i e ((List.mem_append.1 hi).resolve_right fun hi => ?_)
    cases List.mem_singleton.1 hi
  | @threw s k e hk =>
    refine .ended (ho.throw e fun hp m hm => ?_) (by simp)
    cases hst : k.stage with
    | fresh => exact (hg.2 k rfl).2 hst m (List.mem_filterMap.2 ⟨_, ho.known m hm, rfl⟩)
    | kept => exact (hk hst hp).elim
    | taken => exact hc.gone k rfl (.inl hst) m hm
    | lost => exact hc.gone k rfl (.inr hst) m hm

/-- `G` keeps the runs whose steps meet the conditions that the flags ask for. -/
theorem own_inductive {G : St V → Lbl V → Prop} (hP : P → ∀ s l, G s l → TokenCovered s l)
    (hQ : Q → ∀ s l, G s l → CloseCovered s l) :
    ((lts V).restrict G).Inductive fun s => (Inv s.toChan ∧ Going ⟨s, none, none⟩) ∧ Own P Q (desk s) := by
  refine (going_inductive.restrict G).and (fun s hi => ?_) (fun s l s' h _ ho hs => ?_)
  · obtain ⟨c, p, q, hard, answers, rfl⟩ := init_fresh hi
    have hlive : ∀ w x, (desk (fresh c p q hard answers : St V)).live w ≠ some x := by
      intro w x hx
      simp [desk, fresh, WaitQueue.empty, WaitQueue.live?] at hx
    exact {
      known := fun m hm => (List.not_mem_nil hm).elim
      dropped := fun m why hm => (List.not_mem_nil hm).elim
      via := fun w x hx => (hlive w x hx).elim
      stored := fun w x hx => (hlive w x hx).elim
      taken := fun w x hx => (hlive w x hx).elim
      waking := fun w x hx => (hlive w x hx).elim
      acked := fun w x hx => (hlive w x hx).elim
      loose := fun m hm => (by cases hm)
      threw := fun _ k e hk => (List.not_mem_nil hk).elim
      late := fun _ => List.Pairwise.nil
      sent := fun _ k hk => (List.not_mem_nil hk).elim }
  · have hE : True → Exact s := fun _ w x hx => ⟨ho.via w x hx, ho.waking w x hx⟩
    exact ((step_effects h.1 (fun hp => hP hp s l hs.1) (fun hq => hQ hq s l hs.1) hE hs.2).keeps
      (I := fun c => Going c ∧ Placed P Q (desk c.st) c.hand c.call)
      (fun c d he hc => ⟨he.going hc.1, he.placed hc.1 hc.2⟩) ⟨h.2, ho, by simp, by simp, by simp⟩).2.own

end Effects

/-! ## A `send()` that throws -/

/-- **Counterexample.** The first value waits in the slot and a second `send()`
waits for space. The first is received, which wakes the sender; then its token
fires. It runs, finds the slot free and nobody waiting, puts its value into the
slot and throws on entry of the wait for delivery. A later `recv()` returns the
value. -/
theorem failed_send_delivers :
    ∃ s s' : St Nat, (lts Nat).Reachable s ∧ .threw .send 1 .operationCanceled ∈ s.log ∧
      step s (.recv none) = some s' ∧ .received 3 ⟨1, .send, 2⟩ ∈ s'.log := by
  obtain ⟨s, hr, hthrew, hst⟩ := exists_run (V := Nat) 0 (by decide)
    [.sendAsync 1, .send 2 (some 0), .recv none, .fire 0, .run .send 0]
    (P := fun s => .threw .send 1 .operationCanceled ∈ s.log ∧
      (step s (.recv none)).any (fun s' => decide (.received 3 ⟨1, .send, 2⟩ ∈ s'.log)) = true) (by decide +kernel)
  cases hs : step s (.recv none) with
  | none => rw [hs] at hst; cases hst
  | some s' =>
    rw [hs] at hst
    exact ⟨s, s', hr, hthrew, hs, of_decide_eq_true hst⟩

/-- The condition is sharp: a woken sender outside it throws and leaves its value
in the slot. -/
theorem throws_of_uncovered {s s' : St V} {w : Nat} (hi : Inv s.toChan)
    (hg : ¬ TokenCovered s (.run .send w)) (hs : step s (.run .send w) = some s') :
    ∃ x, s.senders.live? w = some x ∧ s'.rendezvous = some x.msg ∧
      .threw .send x.msg.call .operationCanceled ∈ s'.log := by
  cases step_move hs with
  | runSend _ x hx hl =>
  have hlive := WaitQueue.live?_of hx hl
  simp only [TokenCovered, hlive, Classical.not_imp] at hg
  obtain ⟨hd, he, htok, h0, hopen, hpass, hno⟩ := hg
  refine ⟨x.data, hlive, ?_⟩
  have hst : ¬ s.receivers.Starving (fun _ => false) := by
    rintro ⟨v, hv, hfree⟩
    obtain ⟨y, hy, hr, -⟩ := WaitQueue.isFree_some hfree
    exact hno ⟨v, hv, by rw [WaitQueue.isReserved_some hy]; exact hr⟩
  have hgate := (passes_iff hi hx hl).2 hpass
  have hv := (leaveSender_mid hi hx hl).2.2.2
  have hm := (leaveSender_mid hi hx hl).1
  have hch := refresh_toChan (leaveSender s w)
  have htok' := tokenFired_leave s w x.data.token
  unfold runSender
  dsimp only
  rw [he, resumeSender_waiting hi hx hl hd, hd]
  simp only [Bool.false_eq_true, if_false]
  generalize refreshDeadlockTimer (leaveSender s w) = t at hch htok' ⊢
  rw [← hch] at hgate hv hm
  rw [htok] at htok'
  have ht0 : t.capacity = 0 := by rw [hch]; exact h0
  have hoff := offer_alone (s := t) (by rw [hch]; exact hst) x.data.msg
  rcases transmit_cases hm hv x.data.msg x.data.token with ⟨hc, -⟩ | ⟨-, -, hpos, -⟩ |
    ⟨-, -, -, hr, -⟩ | ⟨-, -, -, -, heq⟩ | ⟨-, -, hfull, -⟩
  · rw [hch, show (leaveSender s w).closed = false from hopen] at hc; cases hc
  · omega
  · rw [hoff] at hr; cases hr
  · rw [heq, hoff]
    unfold waitForSend
    rw [if_pos (by cases htk : x.data.token <;> rw [htk] at htok' <;> exact htok')]
    exact ⟨rfl, List.mem_append_right _ (List.mem_singleton_self _)⟩
  · omega

/-- **A `send()` that throws does not deliver.** In every run in which no woken
sender whose token has fired fills an empty slot that nobody waits for: once a
call of `send()` has thrown, its value is not in the channel and no later event
delivers it. -/
theorem failed_send_not_delivered (s : St V) (hr : ((lts V).restrict TokenCovered).Reachable s)
    (pre post : List (Ev V)) (k : Nat) (e : Exn) (hlog : s.log = pre ++ .threw .send k e :: post) :
    (∀ m ∈ s.held, m.call ≠ k) ∧
      ∀ ev ∈ post, ∀ m, ev.delivered? = some m → m.call ≠ k := by
  have h := ((own_inductive (P := True) (Q := False) (fun _ _ _ hg => hg)
    (fun hf => hf.elim)).reachable s hr).2
  refine ⟨h.threw trivial k e ?_, fun ev hev m hm hk => ?_⟩
  · change Ev.threw .send k e ∈ s.log
    rw [hlog]
    exact List.mem_append_right _ List.mem_cons_self
  · have hlate : s.log.Pairwise fun a b => ¬ Late a b := h.late trivial
    rw [hlog] at hlate
    have hcons := (List.pairwise_append.1 hlate).2.1
    exact (List.pairwise_cons.1 hcons).1 ev hev ⟨k, e, m, rfl, hm, hk⟩

/-- A sender is cancelled while its value is in the slot. -/
theorem failed_send_not_delivered_cancelled :
    ∃ s : St Nat, s.log = [.accepted ⟨0, .send, 5⟩] ++ .rolledBack ⟨0, .send, 5⟩ .cancelledSender ::
        .threw .send 0 .cancellation :: [.accepted ⟨1, .sendAsync, 6⟩, .sent 1] ∧
      ∀ m ∈ s.held, m.call ≠ 0 := by
  obtain ⟨s, hr, hlog⟩ := exists_restricted_run (V := Nat) TokenCovered 0 (by decide)
    [.send 5 none, .cancel .send 0, .run .send 0, .sendAsync 6]
    (P := fun s => s.log = [.accepted ⟨0, .send, 5⟩] ++ .rolledBack ⟨0, .send, 5⟩ .cancelledSender ::
        .threw .send 0 .cancellation :: [.accepted ⟨1, .sendAsync, 6⟩, .sent 1]) (by decide +kernel)
  exact ⟨s, hlog, (failed_send_not_delivered s hr
    [.accepted ⟨0, .send, 5⟩, .rolledBack ⟨0, .send, 5⟩ .cancelledSender] _ 0 .cancellation hlog).1⟩

end PhpAsync.L2.Channel
