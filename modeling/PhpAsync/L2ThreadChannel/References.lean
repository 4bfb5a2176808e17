import PhpAsync.Core.LTS
import PhpAsync.Core.Tally

/-!
# References to thread channels

Model of the reference count of thread channels: src/thread_channel.c:79-95, 376-451, 491-538. A
channel is held by PHP wrappers, by the registry of the thread that created it and by
copies of wrappers in persistent memory. The count is atomic, so each call is one step of any
thread; a copy that belongs to a value, a closure or a snapshot is loaded and released with it
(src/thread_pool.c:302-336 loads the same snapshot in every worker).

* `channel_references_are_exact`: if every copy is loaded once before it is released, the count
  is the number of holders and the channel is destroyed when the last one goes.
* `loaded_twice_is_counted_once`: otherwise it can be destroyed under a wrapper, or never.
-/
namespace PhpAsync.L2.ChannelReferences

open PhpAsync.Core

structure Chan where
  refs : Int
  destroyed : Bool
  deriving DecidableEq, Repr

inductive Kind where
  | wrapper
  | registry
  | copy
  deriving DecidableEq, Repr

/-- `gone`: the memory was given back; `loaded`: a wrapper was made of the copy. -/
structure Holder where
  kind : Kind
  chan : Nat
  gone : Bool
  loaded : Bool
  deriving DecidableEq, Repr

structure St where
  chans : List Chan
  holders : List Holder
  deriving DecidableEq, Repr

/-- mirrors src/thread_channel.c:428-434 -/
def Chan.addref (ch : Chan) : Chan := { ch with refs := ch.refs + 1 }

/-- mirrors src/thread_channel.c:436-451 -/
def Chan.dispose (ch : Chan) : Chan := ⟨ch.refs - 1, ch.destroyed || ch.refs == 1⟩

/-- `async_thread_channel_create` and the registry's reference.
mirrors src/thread_channel.c:79-83, 376-399 -/
def Chan.create : Chan := Chan.addref ⟨1, false⟩

def Holder.new (kind : Kind) (c : Nat) : Holder := ⟨kind, c, false, false⟩

inductive Lbl where
  | construct
  | transfer (i : Nat)
  | load (i : Nat)
  /-- the copy is released, `ZEND_OBJECT_TRANSFER_RELEASE` -/
  | release (i : Nat)
  | freeObject (i : Nat)
  /-- the turn of an entry when its thread ends -/
  | closeOwned (i : Nat)
  deriving DecidableEq, Repr

/-- A holder goes and gives its reference back. -/
def St.leave (s : St) (i : Nat) (h : Holder) : St :=
  ⟨s.chans.modify h.chan Chan.dispose, s.holders.set i { h with gone := true }⟩

/-- mirrors src/thread_channel.c:85-95, 491-538 -/
def step (s : St) : Lbl → Option St
  | .construct =>
    some ⟨s.chans ++ [.create],
      s.holders ++ [.new .wrapper s.chans.length] ++ [.new .registry s.chans.length]⟩
  | .transfer i => do
    let h ← s.holders[i]?
    if h.kind = .wrapper ∧ h.gone = false then
      some ⟨s.chans.modify h.chan Chan.addref, s.holders ++ [.new .copy h.chan]⟩
    else none
  | .load i => do
    let h ← s.holders[i]?
    if h.kind = .copy ∧ h.gone = false then
      some { s with holders := s.holders.set i { h with loaded := true } ++ [.new .wrapper h.chan] }
    else none
  | .release i => do
    let h ← s.holders[i]?
    if h.kind = .copy ∧ h.gone = false then
      -- the reference of the copy is not given back
      some { s with holders := s.holders.set i { h with gone := true } }
    else none
  | .freeObject i => do
    let h ← s.holders[i]?
    if h.kind = .wrapper ∧ h.gone = false then some (s.leave i h) else none
  | .closeOwned i => do
    let h ← s.holders[i]?
    if h.kind = .registry ∧ h.gone = false then some (s.leave i h) else none

def lts : LTS St Lbl := LTS.ofFn (· = ⟨[], []⟩) step

/-- A copy is loaded only once, and is released only when it has been loaded. -/
def Once (s : St) : Lbl → Prop
  | .load i => (s.holders[i]?.all (! ·.loaded)) = true
  | .release i => (s.holders[i]?.all (·.loaded)) = true
  | _ => True

instance (s : St) : (l : Lbl) → Decidable (Once s l)
  | .load _ | .release _ => inferInstanceAs (Decidable (_ = true))
  | .construct | .transfer _ | .freeObject _ | .closeOwned _ => isTrue trivial

/-! ## The invariant -/

/-- A wrapper or a registry entry that is there, or a copy not yet loaded, of channel `c`. -/
def holds (c : Nat) (h : Holder) : Nat :=
  if h.chan = c ∧ h.gone = false ∧ (h.kind = .copy → h.loaded = false) then 1 else 0

def Chan.Counts (ch : Chan) (n : Nat) : Prop := ch.refs = n ∧ (ch.destroyed = true ↔ n = 0)

structure Sound (s : St) : Prop where
  counts : ∀ (c : Nat) (ch : Chan), s.chans[c]? = some ch → ch.Counts (tally (holds c) s.holders)
  known : ∀ h ∈ s.holders, h.chan < s.chans.length
  plain : ∀ h ∈ s.holders, h.loaded = true → h.kind = .copy

variable {s : St} {i c : Nat} {h : Holder} {ch : Chan} {n : Nat}

theorem tally_new (l : List Holder) (k : Kind) (c d : Nat) :
    tally (holds c) (l ++ [.new k d]) = tally (holds c) l + if d = c then 1 else 0 := by
  rw [tally_append, tally_singleton]
  simp [holds, Holder.new]

/-- A channel that is not known has no holder. -/
theorem Sound.unheld (hs : Sound s) : tally (holds s.chans.length) s.holders = 0 := by
  refine Nat.eq_zero_of_not_pos fun hp => ?_
  obtain ⟨h, hh, hp⟩ := exists_of_tally_pos _ hp
  have := hs.known h hh
  rw [holds, if_neg (by omega)] at hp
  omega

theorem holds_gone (h : Holder) (c : Nat) : holds c { h with gone := true } = 0 := by simp [holds]

theorem Chan.Counts.addref (h : ch.Counts n) (hn : 0 < n) : ch.addref.Counts (n + 1) := by
  have hd : ch.destroyed = false := by simpa using mt h.2.1 (by omega)
  exact ⟨by simp [Chan.addref, h.1], by simp [Chan.addref, hd]⟩

theorem Chan.Counts.dispose (h : ch.Counts (n + 1)) : ch.dispose.Counts n := by
  have hd : ch.destroyed = false := by simpa using mt h.2.1 (by omega)
  refine ⟨by simp [Chan.dispose, h.1], ?_⟩
  simp only [Chan.dispose, hd, h.1, Bool.false_or, beq_iff_eq]
  omega

theorem counts_pos (hi : s.holders[i]? = some h) (hh : holds c h = 1) : 0 < tally (holds c) s.holders :=
  Nat.lt_of_lt_of_le (by omega) (le_tally (holds c) (List.mem_of_getElem? hi))

/-- A holder may change what it is, and new ones come, if the counts follow. -/
theorem Sound.update (hs : Sound s) {l' : List Holder} {f : Chan → Chan} {d : Nat}
    (hc : ∀ c, c ≠ d → tally (holds c) l' = tally (holds c) s.holders)
    (hd : ∀ ch, ch.Counts (tally (holds d) s.holders) → (f ch).Counts (tally (holds d) l'))
    (hk : ∀ h ∈ l', h.chan < s.chans.length) (hp : ∀ h ∈ l', h.loaded = true → h.kind = .copy) :
    Sound ⟨s.chans.modify d f, l'⟩ := by
  refine ⟨fun c ch hch => ?_, fun h hh => by simpa using hk h hh, hp⟩
  simp only [List.getElem?_modify] at hch
  split at hch
  · subst_vars
    obtain ⟨ch', hch', rfl⟩ := Option.map_eq_some_iff.1 hch
    exact hd ch' (hs.counts _ _ hch')
  · rename_i hne
    have hch : s.chans[c]? = some ch := by simpa using hch
    rw [hc c (Ne.symm hne)]
    exact hs.counts c ch hch

theorem forall_append_new {P : Holder → Prop} {l : List Holder} {k : Kind} {d : Nat} (hl : ∀ h ∈ l, P h)
    (hn : P (.new k d)) : ∀ h ∈ l ++ [.new k d], P h := by
  intro h hh
  rcases List.mem_append.1 hh with hh | hh
  · exact hl h hh
  · exact List.mem_singleton.1 hh ▸ hn

theorem forall_set {P : Holder → Prop} {l : List Holder} {x : Holder} (hl : ∀ h ∈ l, P h) (hx : P x) :
    ∀ h ∈ l.set i x, P h := by
  intro h hh
  rcases List.mem_or_eq_of_mem_set hh with hh | rfl
  · exact hl h hh
  · exact hx

theorem Sound.leave (hs : Sound s) (hi : s.holders[i]? = some h) (hk : h.kind ≠ .copy) (hg : h.gone = false) :
    Sound (s.leave i h) := by
  have hm := List.mem_of_getElem? hi
  have hset : ∀ c, tally (holds c) (s.holders.set i { h with gone := true }) + holds c h
      = tally (holds c) s.holders := fun c => by
    rw [tally_set _ hi, holds_gone, Nat.add_zero]
  refine hs.update (fun c hc => ?_) (fun ch hch => ?_) (forall_set hs.known (hs.known h hm))
    (forall_set hs.plain (hs.plain h hm))
  · have := hset c
    rw [holds, if_neg fun hh => hc hh.1.symm] at this
    omega
  · rw [← hset, holds, if_pos ⟨rfl, hg, fun hc => absurd hc hk⟩] at hch
    exact hch.dispose

theorem Sound.construct (hs : Sound s) : Sound ⟨s.chans ++ [.create],
    s.holders ++ [.new .wrapper s.chans.length] ++ [.new .registry s.chans.length]⟩ := by
  refine ⟨fun c ch hch => ?_, forall_append_new (forall_append_new (fun h hh => ?_) ?_) ?_,
    forall_append_new (forall_append_new hs.plain nofun) nofun⟩
  · rw [tally_new, tally_new]
    rcases Nat.lt_trichotomy c s.chans.length with hlt | rfl | hlt
    · rw [List.getElem?_append_left hlt] at hch
      rw [if_neg (by omega)]
      exact hs.counts c ch hch
    · rw [List.getElem?_concat_length] at hch
      cases hch
      rw [if_pos rfl, hs.unheld]
      exact ⟨rfl, by decide⟩
    · rw [List.getElem?_eq_none (by simpa using Nat.succ_le_of_lt hlt)] at hch
      cases hch
  · simpa using Nat.lt_succ_of_lt (hs.known h hh)
  · simp [Holder.new]
  · simp [Holder.new]

theorem Sound.step {l : Lbl} {t : St} (hs : Sound s) (ho : Once s l) (ht : step s l = some t) : Sound t := by
  cases l with
  | construct => cases ht; exact hs.construct
  | transfer i =>
    obtain ⟨h, hi, ht⟩ := Option.bind_eq_some_iff.1 ht
    obtain ⟨hc, rfl⟩ := Option.ite_some_none_eq_some.1 ht
    have hm := List.mem_of_getElem? hi
    refine hs.update (fun c hne => ?_) (fun ch hch => ?_) (forall_append_new hs.known (hs.known h hm))
      (forall_append_new hs.plain nofun)
    · rw [tally_new, if_neg (Ne.symm hne), Nat.add_zero]
    · rw [tally_new, if_pos rfl]
      refine hch.addref (counts_pos hi ?_)
      simp [holds, hc]
  | load i =>
    obtain ⟨h, hi, ht⟩ := Option.bind_eq_some_iff.1 ht
    obtain ⟨hc, rfl⟩ := Option.ite_some_none_eq_some.1 ht
    have hm := List.mem_of_getElem? hi
    have hl : h.loaded = false := by simpa [Once, hi] using ho
    -- the reference of the copy is the reference of the wrapper
    have ht : ∀ c, tally (holds c) (s.holders.set i { h with loaded := true } ++ [.new .wrapper h.chan])
        = tally (holds c) s.holders := fun c => by
      have hset := tally_set (g := holds c) (b := { h with loaded := true }) hi
      have h0 : holds c { h with loaded := true } = 0 := by simp [holds, hc.1]
      have h1 : holds c h = if h.chan = c then 1 else 0 := by simp [holds, hc.2, hl]
      rw [tally_new, ← h1]
      omega
    refine ⟨fun c ch hch => ?_, forall_append_new (forall_set hs.known (hs.known h hm)) (hs.known h hm),
      forall_append_new (forall_set hs.plain fun _ => hc.1) nofun⟩
    rw [ht]
    exact hs.counts c ch hch
  | release i =>
    obtain ⟨h, hi, ht⟩ := Option.bind_eq_some_iff.1 ht
    obtain ⟨hc, rfl⟩ := Option.ite_some_none_eq_some.1 ht
    have hm := List.mem_of_getElem? hi
    have hl : h.loaded = true := by simpa [Once, hi] using ho
    refine ⟨fun c ch hch => ?_, forall_set hs.known (hs.known h hm), forall_set hs.plain (hs.plain h hm)⟩
    have hset := tally_set (g := holds c) (b := { h with gone := true }) hi
    have h0 : holds c h = 0 := by simp [holds, hc.1, hl]
    rw [holds_gone, h0] at hset
    exact Nat.add_right_cancel hset ▸ hs.counts c ch hch
  | freeObject i =>
    obtain ⟨h, hi, ht⟩ := Option.bind_eq_some_iff.1 ht
    obtain ⟨hc, rfl⟩ := Option.ite_some_none_eq_some.1 ht
    exact hs.leave hi (by simp [hc.1]) hc.2
  | closeOwned i =>
    obtain ⟨h, hi, ht⟩ := Option.bind_eq_some_iff.1 ht
    obtain ⟨hc, rfl⟩ := Option.ite_some_none_eq_some.1 ht
    exact hs.leave hi (by simp [hc.1]) hc.2

theorem sound_inductive : (lts.restrict Once).Inductive Sound where
  init := by
    intro s hs
    cases hs
    exact ⟨nofun, nofun, nofun⟩
  step := fun _ _ _ h hst => h.step hst.1 hst.2

/-- **The count of a channel is the number of its holders**, and it is destroyed when the last
one has gone. -/
theorem channel_references_are_exact (s : St) (hr : (lts.restrict Once).Reachable s) (c : Nat) (ch : Chan)
    (hc : s.chans[c]? = some ch) : ch.refs = tally (holds c) s.holders ∧
      (ch.destroyed = true ↔ ∀ h ∈ s.holders, holds c h = 0) := by
  obtain ⟨h1, h2⟩ := (sound_inductive.reachable s hr).counts c ch hc
  refine ⟨h1, h2.trans ⟨fun h0 h hh => ?_, fun h0 => ?_⟩⟩
  · have := le_tally (holds c) hh
    omega
  · rw [tally_congr h0]
    simp [tally]

/-- The owner ends while a worker still has the wrapper it made of its copy. -/
theorem channel_references_are_exact_two : ∃ s, (lts.restrict Once).Reachable s ∧
    s.chans = [⟨1, false⟩] ∧ (1 : Int) = tally (holds 0) s.holders := by
  obtain ⟨s, hr, hc⟩ := LTS.existsG_from (f := step) (G := Once) (P := fun s => s.chans = [⟨1, false⟩]) ⟨[], []⟩
    [.construct, .transfer 0, .load 2, .release 2, .freeObject 0, .closeOwned 1] (by decide +kernel)
  exact ⟨s, hr, hc, (channel_references_are_exact s hr 0 ⟨1, false⟩ (by rw [hc]; rfl)).1⟩

/-- One snapshot is loaded three times: the third wrapper that goes destroys the channel, while
the first wrapper and the registry still have it. A copy that nobody loads is released:
the channel stays, without a holder. -/
theorem loaded_twice_is_counted_once :
    (∃ s, lts.Reachable s ∧ s.chans = [⟨0, true⟩] ∧ tally (holds 0) s.holders = 2) ∧
      ∃ s, lts.Reachable s ∧ s.chans = [⟨1, false⟩] ∧ tally (holds 0) s.holders = 0 := by
  have h1 := LTS.exists_from (f := step)
    (P := fun s => s.chans = [⟨0, true⟩] ∧ tally (holds 0) s.holders = 2) ⟨[], []⟩
    [.construct, .transfer 0, .load 2, .freeObject 3, .load 2, .freeObject 4, .load 2, .freeObject 5]
    (by decide +kernel)
  have h2 := LTS.exists_from (f := step)
    (P := fun s => s.chans = [⟨1, false⟩] ∧ tally (holds 0) s.holders = 0) ⟨[], []⟩
    [.construct, .transfer 0, .release 2, .freeObject 0, .closeOwned 1] (by decide +kernel)
  exact ⟨h1, h2⟩

end PhpAsync.L2.ChannelReferences
