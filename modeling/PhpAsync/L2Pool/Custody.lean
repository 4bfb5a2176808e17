import Mathlib.Data.List.Count
import PhpAsync.L2Pool.Accounts

/-!
# `Async\Pool`: every resource is somewhere, once

A resource the factory has made is idle, inside a hook, handed out, or destroyed;
`Balance x` is the account of these places in the middle of a call that itself has
the resources `x` in its hands. Nothing but a release moves a resource back into
the pool, so the account rests on `Owned`.

`close()` empties `idle`, and the code looks at the closed flag again wherever a
hook may have run before a push, with one exception: the healthcheck tick parks
the replacement its factory made without asking (pool.c:793-796).
`replacement_parked_in_closed_pool` is such a run. A `close()` that finds the pool
closed returns at once, also while the first one still has resources to destroy.
`Guarded` excludes the two, and `resource_custody` is what holds then.
-/
namespace PhpAsync.L2.Pool

open PhpAsync.Core PhpAsync.L1

/-! ## Places -/

def Ev.created? : Ev → Option Resource
  | .created r => some r
  | _ => none

def Ev.destroyed? : Ev → Option Resource
  | .destroyed r => some r
  | _ => none

/-- What the factory made, in order. -/
def created (log : List Ev) : List Resource := log.filterMap Ev.created?

/-- What the destructor was called on, in order. -/
def destroyed (log : List Ev) : List Resource := log.filterMap Ev.destroyed?

def St.inHooks (s : St) : List Resource := s.frames.filterMap Frame.resource?

/-- Handed out and not taken back. -/
def handedOut (s : St) (a : Audit) : List Resource := (acquired s.log).diff a.taken

/-- Releases are `Owned`; a tick's factory makes a resource only while the pool is
open; `close()` is not called while another call of it still destroys. -/
def Guarded (p : St × Audit) (l : Lbl) : Prop :=
  Owned p l ∧
  match l with
  | .ret (.replace _) (.made _) => p.1.closed = false
  | .close => p.1.frames.any Frame.isClosing = false
  | _ => True

instance (p : St × Audit) (l : Lbl) : Decidable (Guarded p l) :=
  @instDecidableAnd _ _ inferInstance (by split <;> infer_instance)

/-! ## The balance in the middle of a call -/

@[simp] theorem created_append (log log' : List Ev) :
    created (log ++ log') = created log ++ created log' := List.filterMap_append

@[simp] theorem destroyed_append (log log' : List Ev) :
    destroyed (log ++ log') = destroyed log ++ destroyed log' := List.filterMap_append

/-- What was made or taken back is in one of the places. -/
structure Balance (a : Audit) (x : List Resource) (s : St) : Prop where
  count : ∀ r, (created s.log).count r + a.taken.count r =
    s.idle.count r + s.inHooks.count r + x.count r + (acquired s.log).count r +
      (destroyed s.log).count r

namespace Balance

variable {a : Audit} {x : List Resource} {s t : St} {r : Resource}

/-- An entry of the log. -/
theorem of_emit {e : Ev} {k : List Resource} (h : ∀ y, (created s.log).count y + (created [e]).count y + a.taken.count y =
      s.idle.count y + s.inHooks.count y + k.count y + ((acquired s.log).count y + (acquired [e]).count y) +
        ((destroyed s.log).count y + (destroyed [e]).count y)) : Balance a k (Pool.emit s e) := by
  refine ⟨fun y => ?_⟩
  show (created (s.log ++ [e])).count y + _ = s.idle.count y + s.inHooks.count y + _ +
    (acquired (s.log ++ [e])).count y + (destroyed (s.log ++ [e])).count y
  rw [created_append, acquired_append, destroyed_append, List.count_append, List.count_append,
    List.count_append]
  exact h y

theorem emit (h : Balance a x s) {e : Ev} (he : e.quiet = true) : Balance a x (emit s e) := by
  refine of_emit fun r => ?_
  have h1 : created [e] = [] := by cases e <;> first | rfl | cases he
  have h2 : destroyed [e] = [] := by cases e <;> first | rfl | cases he
  rw [h1, acquired_quiet he, h2]
  exact h.count r

theorem congr (h : Balance a x s) (he : (t.log, t.idle, t.frames) = (s.log, s.idle, s.frames)) : Balance a x t := by
  simp only [Prod.mk.injEq] at he
  obtain ⟨h1, h2, h3⟩ := he
  exact ⟨by unfold St.inHooks; rw [h1, h2, h3]; exact h.count⟩

theorem wakeWaiter (h : Balance a x s) : Balance a x (wakeWaiter s) := by
  obtain ⟨q, k, heq⟩ := wakeWaiter_eq s
  rw [heq]
  exact ⟨h.count⟩

variable {f : Frame}

/-- What the call has in its hands stays with it in the hook. -/
theorem enter (h : Balance a f.resource?.toList s) : Balance a [] (enter s f) := by
  refine ⟨fun r => ?_⟩
  have hf : (Pool.enter s f).inHooks = f.resource?.toList ++ s.inHooks := by
    show List.filterMap Frame.resource? (f :: s.frames) = _
    rw [List.filterMap_cons]
    cases f.resource? <;> rfl
  have := h.count r
  rw [hf, List.count_append, List.count_nil]
  show (created s.log).count r + a.taken.count r = s.idle.count r + _ + 0 +
    (acquired s.log).count r + (destroyed s.log).count r
  omega

/-- The hook of `f` returns. -/
theorem leave (h : Balance a [] s) (hf : f ∈ s.frames) :
    Balance a f.resource?.toList { s with frames := s.frames.erase f } := by
  refine ⟨fun r => ?_⟩
  have hperm : s.inHooks.Perm (f.resource?.toList ++ (s.frames.erase f).filterMap Frame.resource?) := by
    have h1 := (List.perm_cons_erase hf).filterMap Frame.resource?
    rw [List.filterMap_cons] at h1
    cases hr : f.resource? <;> rw [hr] at h1 <;> exact h1
  have h1 := hperm.count_eq r
  rw [List.count_append] at h1
  have := h.count r
  rw [List.count_nil] at this
  show (created s.log).count r + a.taken.count r =
    s.idle.count r + ((s.frames.erase f).filterMap Frame.resource?).count r + _ +
      (acquired s.log).count r + (destroyed s.log).count r
  omega

theorem destroy (h : Balance a [r] s) : Balance a [] (Pool.emit s (.destroyed r)) := by
  refine of_emit fun y => ?_
  have := h.count y
  show _ + 0 + _ = _ + _ + 0 + (_ + 0) + (_ + List.count y [r])
  omega

theorem push (h : Balance a [r] s) : Balance a [] { s with idle := s.idle ++ [r] } := by
  refine ⟨fun y => ?_⟩
  have := h.count y
  show (created s.log).count y + _ = (s.idle ++ [r]).count y + s.inHooks.count y + 0 +
    (acquired s.log).count y + (destroyed s.log).count y
  rw [List.count_append]
  omega

theorem pop {rest : List Resource} (h : Balance a [] s) (hidle : s.idle = r :: rest) (n : Nat) :
    Balance a [r] { s with idle := rest, active := n } := by
  refine ⟨fun y => ?_⟩
  have := h.count y
  rw [hidle, ← List.singleton_append, List.count_append, List.count_nil] at this
  show (created s.log).count y + _ = rest.count y + s.inHooks.count y + _ +
    (acquired s.log).count y + (destroyed s.log).count y
  omega

theorem make (h : Balance a [] s) (r : Resource) : Balance a [r] (Pool.emit s (.created r)) := by
  refine of_emit fun y => ?_
  have := h.count y
  rw [List.count_nil] at this
  show _ + List.count y [r] + _ = _ + _ + _ + (_ + 0) + (_ + 0)
  omega

theorem handOut (h : Balance a [r] s) (call : Nat) :
    Balance a [] (Pool.emit (checkOut s r) (.acquired call r)) := by
  obtain ⟨l, heq⟩ := checkOut_eq s r
  rw [heq]
  refine of_emit fun y => ?_
  have := h.count y
  show (created s.log).count y + 0 + _ = s.idle.count y + s.inHooks.count y + 0 +
    ((acquired s.log).count y + List.count y [r]) + ((destroyed s.log).count y + 0)
  omega

theorem takeBack (h : Balance a [] s) (ht : checkIn s r = some t) :
    Balance { a with taken := r :: a.taken } [r] t := by
  have hbal : Balance { a with taken := r :: a.taken } [r] s := by
    refine ⟨fun y => ?_⟩
    have := h.count y
    rw [List.count_nil] at this
    rw [← List.singleton_append, List.count_append]
    omega
  obtain ⟨-, ⟨-, rfl⟩ | ⟨i, -, -, rfl⟩⟩ := checkIn_cases ht
  · exact hbal
  · exact ⟨hbal.count⟩

end Balance

/-! ## Steps -/

section Steps

variable {c : Cfg} {A : Audit} {s₀ s : St} {l : Lbl} {a b k : Nat} {x : Option Resource}

theorem Start.balance (h : Start s₀ l a b k x s) (hA : Balance A [] s₀) (t : St) :
    Balance (audit s₀ l t A) x.toList s := by
  have same : ∀ {x : List Resource} {s : St}, Balance A x s → (∀ r, l = .release r → checkIn s₀ r = none) →
      Balance (audit s₀ l t A) x s :=
    fun h hr => ⟨by rw [audit_taken_eq hr]; exact h.count⟩
  cases h with
  | call _ hr => exact same (hA.congr rfl) hr
  | @taken r t' ht =>
    have hback := hA.takeBack ht
    unfold audit
    dsimp only
    rw [ht, if_pos (Option.isSome_some (a := t'))]
    exact hback.congr rfl
  | close =>
    obtain ⟨q, k, -, heq⟩ := wakeAllWithException_eq { newCall s₀ with closed := true } (.pool "Pool is closed")
    rw [heq]
    exact same (hA.congr rfl) nofun
  | run hx hlog =>
    rcases hlog with rfl | rfl
    · exact same (hA.congr rfl) nofun
    · exact same ((hA.emit (e := .consumedTwice) rfl).congr rfl) nofun
  | woken _ _ hl => exact same (hA.congr rfl) (by rintro r rfl; rcases hl with hl | hl <;> cases hl)
  | ret hf => exact same (hA.leave hf) nofun
  | circuit | tick => exact same (hA.congr rfl) nofun

theorem Mid.balance (h : Mid c s₀ l a b k x s) (hs : ∀ {a b k x s}, Start s₀ l a b k x s → Balance A x.toList s) :
    Balance A x.toList s := by
  induction h with
  | start h => exact hs h
  | dec _ ih => exact ih.congr rfl
  | push _ _ ih => exact ih.push
  | pop _ _ hidle _ ih => exact ih.pop hidle _
  | @drain r rest s _ _ hidle ih => exact ih.pop hidle s.active
  | create h => exact (hs h).congr rfl
  | refill _ h => exact hs h
  | made _ r ih => exact ih.make r
  | destroyed _ ih => exact ih.destroy
  | drop _ _ _ _ ih => exact ih
  | giveUp _ h => exact hs h

theorem Done.balance (h : Done c s₀ l s) (hs : ∀ {a b k x s}, Start s₀ l a b k x s → Balance A x.toList s) :
    Balance A [] s := by
  cases h with
  | same h => exact hs h
  | say hm he => exact (hm.balance hs).emit he
  | wake hm he => exact (hm.balance hs).wakeWaiter.emit he
  | tick hm => exact (hm.balance hs).wakeWaiter
  | enter hm => exact (hm.balance hs).enter
  | handOut hm => exact (hm.balance hs).handOut _
  | noPlace hm _ call mode =>
    cases mode with
    | acquire t => exact (hm.balance hs).congr rfl
    | tryAcquire => exact (hm.balance hs).emit rfl

end Steps

theorem create_balance (c : Cfg) (outs : List Outcome) : Balance ⟨[], false⟩ [] (create c outs) := by
  have h1 : created (create c outs).log = prewarm c.minSize outs := by
    show List.filterMap Ev.created? (List.map Ev.created _) = _
    rw [List.filterMap_map]
    exact List.filterMap_some
  have h2 : acquired (create c outs).log = [] := by
    show List.filterMap Ev.acquired? (List.map Ev.created _) = []
    rw [List.filterMap_map]
    exact List.filterMap_eq_nil_iff.2 fun _ _ => rfl
  have h3 : destroyed (create c outs).log = [] := by
    show List.filterMap Ev.destroyed? (List.map Ev.created _) = []
    rw [List.filterMap_map]
    exact List.filterMap_eq_nil_iff.2 fun _ _ => rfl
  refine ⟨fun r => ?_⟩
  rw [h1, h2, h3]
  rfl

theorem balance_inductive (c : Cfg) : (audited c).Inductive fun p => Balance p.2 [] p.1 where
  init p hi := by
    obtain ⟨⟨_, _, _, _, outs, -, hp⟩, ha⟩ := hi
    rw [hp, ha]
    exact create_balance c outs
  step p l q h hs := by
    obtain ⟨hst, hq⟩ := LTS.recorded_step hs
    rw [hq]
    exact (step_done hst).balance fun hstart => hstart.balance h q.1

/-- **Conservation.** In every run, whatever the hooks do and whatever is released, a value
is idle, in a hook, handed out or destroyed exactly as often as it was made or taken back. -/
theorem resources_conserved (c : Cfg) (s : St) (a : Audit) (hr : (audited c).Reachable (s, a)) (r : Resource) :
    (created s.log).count r + a.taken.count r =
      s.idle.count r + s.inHooks.count r + (acquired s.log).count r + (destroyed s.log).count r :=
  ((balance_inductive c).reachable (s, a) hr).count r

theorem resources_conserved_twice : ∃ x : St × Audit, x.2.taken = [⟨7, none⟩, ⟨7, none⟩] ∧
    ∀ r, (created x.1.log).count r + x.2.taken.count r = x.1.idle.count r + x.1.inHooks.count r +
      (acquired x.1.log).count r + (destroyed x.1.log).count r := by
  obtain ⟨x, hr, h⟩ := exists_audited_run 0 1 (by decide) (by decide) (by decide) []
    [.acquire 0, .ret (.factory 0 (.acquire 0)) (.made ⟨7, none⟩), .release ⟨7, none⟩, .release ⟨7, none⟩]
    (P := fun x => x.2.taken = [⟨7, none⟩, ⟨7, none⟩]) (by decide +kernel)
  exact ⟨x, h, resources_conserved _ x.1 x.2 hr⟩

/-! ## A closed pool stays empty -/

/-- Once closed, `idle` is empty but for a `close()` that still destroys; once a
`close()` has returned, it is empty. -/
structure Shut (ret : Bool) (s : St) : Prop where
  closing : s.frames.any Frame.isClosing = true → s.closed = true
  drained : s.closed = true → s.frames.any Frame.isClosing = false → s.idle = []
  returned : ret = true → s.closed = true ∧ s.idle = []

namespace Shut

variable {ret : Bool} {s t : St} {r : Resource}

theorem congr (h : Shut ret s) (he : (t.closed, t.frames, t.idle) = (s.closed, s.frames, s.idle)) : Shut ret t := by
  simp only [Prod.mk.injEq] at he
  obtain ⟨h1, h2, h3⟩ := he
  refine ⟨?_, ?_, ?_⟩
  · rw [h1, h2]; exact h.closing
  · rw [h1, h2, h3]; exact h.drained
  · rw [h1, h3]; exact h.returned

theorem wakeWaiter (h : Shut ret s) : Shut ret (wakeWaiter s) := by
  obtain ⟨q, k, heq⟩ := wakeWaiter_eq s
  rw [heq]
  exact h.congr rfl

theorem enter (h : Shut ret s) (hf : f.isClosing = false) : Shut ret (enter s f) := by
  have hany : (Pool.enter s f).frames.any Frame.isClosing = s.frames.any Frame.isClosing := by
    show (f :: s.frames).any Frame.isClosing = _
    rw [List.any_cons, hf, Bool.false_or]
  refine ⟨?_, ?_, h.returned⟩
  · rw [hany]; exact h.closing
  · rw [hany]; exact h.drained

theorem leave (h : Shut ret s) (hf : f ∈ s.frames) (hno : f.isClosing = false) :
    Shut ret { s with frames := s.frames.erase f } := by
  have hany : s.frames.any Frame.isClosing = (s.frames.erase f).any Frame.isClosing := by
    rw [(List.perm_cons_erase hf).any_eq, List.any_cons, hno, Bool.false_or]
  refine ⟨?_, ?_, h.returned⟩
  · show (s.frames.erase f).any _ = true → _
    rw [← hany]; exact h.closing
  · show _ → (s.frames.erase f).any _ = false → _
    rw [← hany]; exact h.drained

theorem push (h : Shut ret s) (ho : s.closed = false) (idle : List Resource) :
    Shut ret { s with idle := idle } := by
  refine ⟨h.closing, fun hc => ?_, fun hret => ?_⟩
  · rw [show s.closed = true from hc] at ho
    cases ho
  · rw [(h.returned hret).1] at ho
    cases ho

theorem pop {rest : List Resource} (h : Shut ret s) (hidle : s.idle = r :: rest) :
    Shut ret { s with idle := rest } := by
  refine ⟨h.closing, fun hc hf => ?_, fun hret => ?_⟩
  · have hnil := h.drained hc hf
    rw [hidle] at hnil
    cases hnil
  · have hnil := (h.returned hret).2
    rw [hidle] at hnil
    cases hnil

end Shut

section Closing

variable {c : Cfg} {ret : Bool} {s : St}

/-- The loop of `close()` ends with an empty buffer. -/
theorem drainIdle_shut (hc : s.closed = true) (hret : ret = true → s.idle = []) (call : Nat)
    (e : Option Exn) :
    Shut (ret || !(drainIdle s call e).inClose call) (drainIdle s call e) := by
  rcases drainIdle_cases s call e with ⟨hidle, heq⟩ | ⟨r, rest, hidle, heq⟩ <;> rw [heq]
  · exact ⟨fun _ => hc, fun _ _ => hidle, fun _ => ⟨hc, hidle⟩⟩
  · have hin : (destroy { s with idle := rest } r (.closing call e)).inClose call = true := by
      show List.any (Frame.closing call e :: s.frames) _ = true
      rw [List.any_cons]
      simp
    rw [hin]
    refine ⟨fun _ => hc, fun _ hno => ?_, fun h => ?_⟩
    · have hno' : List.any (Frame.closing call e :: s.frames) Frame.isClosing = false := hno
      rw [List.any_cons] at hno'
      cases hno'
    · have hnil := hret (by simpa using h)
      rw [hidle] at hnil
      cases hnil

theorem close_shut (h : Shut ret s) (hno : s.frames.any Frame.isClosing = false) (call : Nat) :
    Shut (ret || !(close s call).inClose call) (close s call) := by
  unfold close
  split
  · rename_i hc
    have hidle := h.drained hc hno
    exact ⟨fun _ => hc, fun _ _ => hidle, fun _ => ⟨hc, hidle⟩⟩
  · obtain ⟨q, k, -, heq⟩ := wakeAll_eq (.pool "Pool is closed") s.waiters.queue.reverse
      { s with closed := true }
    unfold wakeAllWithException
    rw [heq]
    exact drainIdle_shut (s := { s with closed := true, waiters := q, wakers := k }) rfl
      (fun hret => (h.returned hret).2) call none

/-- A step that is not one of `close()`; a tick's factory has made something only if the
pool is open. -/
theorem Mid.shut {s₀ : St} {l : Lbl} {a b k : Nat} {x : Option Resource} (h : Mid c s₀ l a b k x s)
    (hl : l.isClosing = false) (hopen : ∀ left r, l = .ret (.replace left) (.made r) → s₀.closed = false)
    (h0 : Shut ret s₀) : Shut ret s ∧ s.closed = s₀.closed := by
  have hs : ∀ {a b k x s}, Start s₀ l a b k x s → Shut ret s ∧ s.closed = s₀.closed := by
    intro a b k x s h
    cases h with
    | taken ht =>
      obtain ⟨-, ⟨-, rfl⟩ | ⟨i, -, -, rfl⟩⟩ := checkIn_cases ht <;> exact ⟨h0.congr rfl, rfl⟩
    | close => cases hl
    | ret hf => exact ⟨h0.leave hf hl, rfl⟩
    | _ => exact ⟨h0.congr rfl, rfl⟩
  induction h with
  | start h => exact hs h
  | dec _ ih => exact ⟨ih.1.congr rfl, ih.2⟩
  | push _ ho ih =>
    refine ⟨ih.1.push ?_ _, ih.2⟩
    rcases ho with ho | ⟨left, ho⟩
    · exact ho
    · rw [ih.2]; exact hopen _ _ ho
  | pop _ _ hidle _ ih => exact ⟨(ih.1.pop hidle).congr rfl, ih.2⟩
  | drain _ hcl => rw [hl] at hcl; cases hcl
  | create h => exact ⟨(hs h).1.congr rfl, (hs h).2⟩
  | refill _ h => exact hs h
  | made _ r ih => exact ⟨ih.1.congr rfl, ih.2⟩
  | destroyed _ ih => exact ⟨ih.1.congr rfl, ih.2⟩
  | drop _ _ _ _ ih => exact ih
  | giveUp _ h => exact hs h

theorem Done.shut {s₀ : St} {l : Lbl} (h : Done c s₀ l s) (hl : l.isClosing = false)
    (hopen : ∀ left r, l = .ret (.replace left) (.made r) → s₀.closed = false) (h0 : Shut ret s₀) : Shut ret s := by
  cases h with
  | same hs => exact (Mid.shut (c := c) (.start hs) hl hopen h0).1
  | say hm => exact (hm.shut hl hopen h0).1.congr rfl
  | wake hm => exact (hm.shut hl hopen h0).1.wakeWaiter.congr rfl
  | tick hm => exact (hm.shut hl hopen h0).1.wakeWaiter
  | enter hm hf => exact (hm.shut hl hopen h0).1.enter ((Prod.mk.inj hf).2.trans hl)
  | @handOut _ r s hm =>
    obtain ⟨l, heq⟩ := checkOut_eq s r
    rw [heq]
    exact (hm.shut hl hopen h0).1.congr rfl
  | noPlace hm _ call mode => cases mode <;> exact (hm.shut hl hopen h0).1.congr rfl

theorem step_shut {A : Audit} {s' : St} {l : Lbl} (h : Shut A.closeReturned s) (hg : Guarded (s, A) l)
    (hs : step c s l = some s') : Shut (audit s l s' A).closeReturned s' := by
  obtain ⟨-, hg⟩ := hg
  cases hl : l.isClosing with
  | false =>
    have hsame : (audit s l s' A).closeReturned = A.closeReturned := by
      unfold audit
      split
      · split <;> rfl
      · cases hl
      · cases hl
      · rfl
    rw [hsame]
    refine (step_done hs).shut hl (fun left r he => ?_) h
    subst he
    exact hg
  | true =>
    cases l with
    | close => cases hs; exact close_shut (s := newCall s) (h.congr rfl) hg _
    | ret f out =>
      simp only [step] at hs
      obtain ⟨hf, ⟨⟩⟩ := Option.ite_none_right_eq_some.1 hs
      cases f with
      | closing call e =>
        exact drainIdle_shut (s := { s with frames := s.frames.erase (.closing call e) }) 
          (h.closing (List.any_eq_true.2 ⟨_, hf.1, rfl⟩)) (fun hret => (h.returned hret).2) _ _
      | _ => cases hl
    | _ => cases hl

end Closing

theorem shut_inductive (c : Cfg) :
    ((audited c).restrict Guarded).Inductive fun p => Shut p.2.closeReturned p.1 where
  init p hi := by
    obtain ⟨⟨_, _, _, _, outs, -, hp⟩, ha⟩ := hi
    rw [hp, ha]
    exact ⟨fun h => (by cases h), fun h => (by cases h), fun h => (by cases h)⟩
  step p l q h hs := by
    obtain ⟨hst, hq⟩ := LTS.recorded_step hs.2
    rw [hq]
    exact step_shut h hs.1 hst

/-! ## Custody -/

/-- **Counterexample.** The pool has one idle resource and a minimum of 1. A tick
finds it dead; the pool is closed while the tick's factory runs, `close()` returns,
and the tick parks the replacement. -/
theorem replacement_parked_in_closed_pool :
    ∃ x, (audited ⟨1, 1, true⟩).Reachable x ∧ x.1.closed = true ∧ x.2.closeReturned = true ∧
      x.1.frames = [] ∧ x.1.idle = [⟨2, none⟩] := by
  exact exists_audited_run 1 1 (by decide) (by decide) (by decide)
    [.made ⟨1, none⟩]
    [.tick, .ret (.healthcheck 0 ⟨1, none⟩) .no, .ret (.unhealthy 0) .ok, .close,
      .ret (.replace 0) (.made ⟨2, none⟩)] (by decide +kernel)

/-- **Custody.** In every guarded run the resources the factory made are, each of
them once, the idle ones, those inside a hook, those handed out and those destroyed;
nothing is destroyed more often than it was made; and after a `close()` has returned
no resource is idle. -/
theorem resource_custody (c : Cfg) (s : St) (a : Audit)
    (hr : ((audited c).restrict Guarded).Reachable (s, a)) :
    (created s.log).Perm (s.idle ++ s.inHooks ++ handedOut s a ++ destroyed s.log) ∧
    (∀ r, (destroyed s.log).count r ≤ (created s.log).count r) ∧
    (a.closeReturned = true → s.idle = []) := by
  have hbal := (balance_inductive c).reachable (s, a) hr.of_restrict
  have hacc := (accounts_inductive c).reachable (s, a) (hr.restrict_mono fun _ _ h => h.1)
  have hout : ∀ r, (handedOut s a).count r + a.taken.count r = (acquired s.log).count r := by
    intro r
    unfold handedOut
    rw [List.count_diff]
    exact Nat.sub_add_cancel (hacc.taken r)
  refine ⟨?_, fun r => ?_, fun h => ?_⟩
  · rw [List.perm_iff_count]
    intro r
    have h1 := hbal.count r
    have h2 := hout r
    rw [List.count_append, List.count_append, List.count_append]
    rw [List.count_nil] at h1
    dsimp only at h1
    omega
  · have h1 := hbal.count r
    have h2 := hout r
    dsimp only at h1
    omega
  · exact ((shut_inductive c).reachable (s, a) hr |>.returned h).2

/-- A closed pool: the tick's resource is destroyed when its check ends after
`close()`, and so is the one a caller brings back. -/
theorem resource_custody_closed :
    ∃ x : St × Audit, x.2.closeReturned = true ∧ created x.1.log = [⟨1, none⟩, ⟨2, none⟩] ∧
      destroyed x.1.log = [⟨1, none⟩, ⟨2, none⟩] ∧ x.1.idle = [] := by
  obtain ⟨x, hr, h1, h2, h3⟩ := exists_restricted_audited_run Guarded 1 2 (by decide) (by decide) (by decide)
    [.made ⟨1, none⟩]
    [.tick, .acquire 0, .ret (.factory 0 (.acquire 0)) (.made ⟨2, none⟩), .close,
      .ret (.healthcheck 0 ⟨1, none⟩) .ok, .ret .checkedLate .ok, .release ⟨2, none⟩,
      .ret (.beforeRelease 2 ⟨2, none⟩) .ok, .ret (.reportSuccess 2 ⟨2, none⟩) .ok]
    (P := fun x => x.2.closeReturned = true ∧ created x.1.log = [⟨1, none⟩, ⟨2, none⟩] ∧
      destroyed x.1.log = [⟨1, none⟩, ⟨2, none⟩]) (by decide +kernel)
  exact ⟨x, h1, h2, h3, (resource_custody ⟨1, 2, true⟩ x.1 x.2 hr).2.2 h1⟩

end PhpAsync.L2.Pool
