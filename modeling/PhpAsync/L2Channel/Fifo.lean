import PhpAsync.Core.Ledger
import PhpAsync.L2Channel.Calls

/-!
# `Async\Channel` is a lossless FIFO

The channel implements the ledger of `Core.Ledger`: its held items are the
buffer and the slot, its history is read off the log. Every step of the channel
is a run of the ledger (`ledger_simulates`): what moves a value is an acceptance,
a delivery from the front or a rollback, and no other effect of a step does.

* `lossless_fifo`: an accepted value is in one place, and deliveries are in
  acceptance order.
-/
namespace PhpAsync.L2.Channel

open PhpAsync.Core PhpAsync.L1

variable {V : Type}

def Ev.rolledBack? : Ev V → Option (Msg V)
  | .rolledBack m _ => some m
  | _ => none

def ledger (s : St V) : Ledger (Msg V) where
  accepted := s.log.filterMap Ev.accepted?
  delivered := s.log.filterMap Ev.delivered?
  dropped := s.log.filterMap Ev.rolledBack?
  held := s.held

/-- In the middle of a step the value in hand is still held. -/
def Cfg.ledger (c : Cfg V) : Ledger (Msg V) :=
  { Channel.ledger c.st with held := c.hand.toList ++ c.st.held }

variable {s t : St V} {h : Option (Msg V)} {k k' : Option (Sending V)}

/-- An event that moves no value. -/
theorem ledger_note {e : Ev V} (hh : t.held = s.held) (hl : t.log = s.log ++ [e])
    (he : (e.accepted?, e.delivered?, e.rolledBack?) = (none, none, none)) :
    Cfg.ledger ⟨t, h, k'⟩ = Cfg.ledger ⟨s, h, k⟩ := by
  simp only [Prod.mk.injEq] at he
  simp [Cfg.ledger, Channel.ledger, hh, hl, he]

/-- A withdrawn value was the only one. -/
theorem drop_moves {m : Msg V} {why : Rollback} (hs : s.held = [m]) (ht : t.held = [])
    (hl : t.log = s.log ++ [.rolledBack m why]) :
    ∃ ops, (Ledger.lts Msg.call).Run (Cfg.ledger ⟨s, h, k⟩) ops (Cfg.ledger ⟨t, h, k'⟩) := by
  have heq : Cfg.ledger ⟨t, h, k'⟩ = { Cfg.ledger ⟨s, h, k⟩ with
      dropped := (Cfg.ledger ⟨s, h, k⟩).dropped ++ [m], held := h.toList ++ [] } := by
    simp [Cfg.ledger, Channel.ledger, ht, hl, Ev.accepted?, Ev.delivered?, Ev.rolledBack?]
  rw [heq]
  exact ⟨[.drop m], .cons (.drop _ m h.toList [] (by simp [Cfg.ledger, hs])) (.nil _)⟩

/-- Every effect is a run of the ledger. -/
theorem Effect.moves {P Q E : Prop} {c d : Cfg V} (he : Effect P Q E c d) (hc : Going c) :
    ∃ ops, (Ledger.lts Msg.call).Run c.ledger ops d.ledger := by
  have same : d.ledger = c.ledger → ∃ ops, (Ledger.lts Msg.call).Run c.ledger ops d.ledger :=
    fun h => ⟨[], h ▸ .nil _⟩
  cases he with
  | frame | wake | pushRecv | removeRecv | leaveRecv | unpark | start | tick | commit | pushSend | leaveSend | shut =>
    exact same rfl
  | note he => cases he <;> exact same (ledger_note rfl rfl rfl)
  | serve | reserve | grantSend | sent | refused | threw => exact same (ledger_note rfl rfl rfl)
  | take hh => exact same (by simp [Cfg.ledger, Channel.ledger, hh])
  | @deliver s k m e he =>
    have heq : Cfg.ledger ⟨emit s e, none, k⟩ = { Cfg.ledger ⟨s, some m, k⟩ with
        delivered := (Cfg.ledger ⟨s, some m, k⟩).delivered ++ [m], held := s.held } := by
      cases e <;> cases he <;> simp [Cfg.ledger, Channel.ledger, Chan.held, Ev.accepted?, Ev.delivered?, Ev.rolledBack?]
    rw [heq]
    exact ⟨[.deliver m], .cons (.deliver _ m _ rfl) (.nil _)⟩
  | @accept s h m l o b hh =>
    have heq : Cfg.ledger ⟨emit { s with buffer := l, rendezvous := o, committed := b } (.accepted m), h,
        some ⟨m, .kept⟩⟩ = { Cfg.ledger ⟨s, h, some ⟨m, .fresh⟩⟩ with
          accepted := (Cfg.ledger ⟨s, h, some ⟨m, .fresh⟩⟩).accepted ++ [m]
          held := (Cfg.ledger ⟨s, h, some ⟨m, .fresh⟩⟩).held ++ [m] } := by
      simp [Cfg.ledger, Channel.ledger, Chan.held, Ev.accepted?, Ev.delivered?, Ev.rolledBack?, hh]
    have hfresh : m.call ∉ (Cfg.ledger ⟨s, h, some ⟨m, .fresh⟩⟩).accepted.map Msg.call := by
      intro hm
      obtain ⟨n, hn, he⟩ := List.mem_map.1 hm
      exact (hc.2 _ rfl).2 rfl n hn he
    rw [heq]
    exact ⟨[.accept m], .cons (.accept _ m hfresh) (.nil _)⟩
  | withdraw hr hc hb =>
    exact drop_moves (by simp [Chan.held, hr, hb]) (by simp [Chan.held, hb]) rfl
  | shutDrop _ _ _ hr hc hb => exact drop_moves (by simp [Chan.held, hr, hb]) (by simp [Chan.held, hb]) rfl

/-- **Refinement.** The channel implements the lossless FIFO. -/
theorem ledger_simulates :
    LTS.Simulates (lts V) (Ledger.lts Msg.call) (fun s => Inv s.toChan ∧ Going ⟨s, none, none⟩) ledger where
  inv := going_inductive
  init s hi := by
    obtain ⟨c, p, q, hard, answers, rfl⟩ := init_fresh hi
    rfl
  step s l s' h hs := by
    have hrun := Effects.keeps (I := fun c => Going c ∧ ∃ ops, (Ledger.lts Msg.call).Run (ledger s) ops c.ledger)
      (fun c d he ⟨hc, ops, hr⟩ => ?_) (step_effects h.1 False.elim False.elim False.elim hs) ⟨h.2, [], .nil _⟩
    · exact hrun.2
    · obtain ⟨ops', hr'⟩ := he.moves hc
      exact ⟨he.going hc, ops ++ ops', hr.append hr'⟩

theorem ledger_fifo (hr : (lts V).Reachable s) : (ledger s).Fifo Msg.call :=
  Ledger.fifo_reachable _ _ (ledger_simulates.reachable s hr)

/-- **Lossless FIFO.** In every reachable state each value that was accepted is
in exactly one place: in the channel, delivered once, or rolled back. Nothing
else is. Delivered and held values are the accepted ones, in acceptance order,
without those rolled back; in particular deliveries happen in that order. -/
theorem lossless_fifo (s : St V) (hr : (lts V).Reachable s) :
    (∀ m ∈ s.log.filterMap Ev.accepted?,
      (s.held.map Msg.call).count m.call +
        ((s.log.filterMap Ev.delivered?).map Msg.call).count m.call +
        ((s.log.filterMap Ev.rolledBack?).map Msg.call).count m.call = 1) ∧
    (∀ m, m ∈ s.log.filterMap Ev.delivered? ∨ m ∈ s.held ∨ m ∈ s.log.filterMap Ev.rolledBack? →
      m ∈ s.log.filterMap Ev.accepted?) ∧
    s.log.filterMap Ev.delivered? ++ s.held =
      (s.log.filterMap Ev.accepted?).filter (fun m =>
        decide (m.call ∉ (s.log.filterMap Ev.rolledBack?).map Msg.call)) ∧
    s.log.filterMap Ev.delivered? =
      (s.log.filterMap Ev.accepted?).filter (fun m =>
        decide (m.call ∉ (s.log.filterMap Ev.rolledBack?).map Msg.call) &&
        decide (m.call ∉ s.held.map Msg.call)) := by
  have h := ledger_fifo hr
  exact ⟨fun m hm => h.conserved hm, fun m hm => h.mem_accepted hm, h.order, h.delivered_eq⟩

/-- Values 1 and 2 go through a buffer of two, 1 to a future and 2 still held. -/
theorem lossless_fifo_buffered :
    ∃ s : St Nat, s.log.filterMap Ev.delivered? = [⟨1, .send, 1⟩] ∧ s.held = [⟨2, .send, 2⟩] ∧
      s.log.filterMap Ev.delivered? ++ s.held =
        (s.log.filterMap Ev.accepted?).filter (fun m =>
          decide (m.call ∉ (s.log.filterMap Ev.rolledBack?).map Msg.call)) := by
  obtain ⟨s, hr, hd, hh⟩ := exists_run (V := Nat) 2 (by decide)
    [.recvAsync, .send 1 none, .send 2 none]
    (P := fun s => s.log.filterMap Ev.delivered? = [⟨1, .send, 1⟩] ∧
      s.held = [⟨2, .send, 2⟩]) (by decide +kernel)
  exact ⟨s, hd, hh, (lossless_fifo s hr).2.2.1⟩

end PhpAsync.L2.Channel
