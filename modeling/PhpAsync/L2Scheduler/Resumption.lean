import PhpAsync.L2Scheduler.Queue

/-!
# No spurious resumption

A call of `async_scheduler_coroutine_suspend` returns when the coroutine has been resumed or
cancelled, which its waker tells by the status RESULT, or when its own events have failed to
start; and nothing is thrown into it then but the error of its waker.

**Hypotheses** (`Undisturbed`): the discipline of the queue (`Orderly`), outside of a graceful
shutdown; and no destructor that the end of a coroutine runs suspends (`Unsuspended`).

**Results.**
* `Turn.back`: what a step of a tick or loop does to the suspensions on all fibers.
* `no_spurious_resumption`: a suspension goes on, or returns as described.
* `thrown_into_waiting`: without the hypotheses an exception of another coroutine is thrown
  into one that still waits.
-/
namespace PhpAsync.L2.Scheduler

open PhpAsync.Core Function
open PhpAsync.L2.Coroutine (Status)

/-- See the module doc. -/
def Undisturbed (s : St) (l : Lbl) : Prop := Orderly s l ∧ s.shutdown = false

instance (s : St) (l : Lbl) : Decidable (Undisturbed s l) := inferInstanceAs (Decidable (_ ∧ _))

/-! ## Suspensions that go on -/

/-- No suspension has returned. -/
def Frames (s t : St) : Prop := ∀ f, (s.stack f).frame ≠ none → (t.stack f).frame = (s.stack f).frame

variable {k : Option Loop} {saved : List Nat}

section Frames

variable {s t u : St} {z : Stack} {h : Host} {w : Work} {l : Loop} {x : Choice} {f : Nat}

theorem Frames.of_eq (hstack : t.stack = s.stack) : Frames s t := fun f _ => by rw [hstack]

theorem Frames.trans (hst : Frames s t) (htu : Frames t u) : Frames s u := fun f hf =>
  (htu f (by rw [hst f hf]; exact hf)).trans (hst f hf)

/-- One fiber goes to another point, in the suspension it is in. -/
theorem Frames.put (hstack : t.stack = update s.stack f z)
    (hz : (s.stack f).frame ≠ none → z.frame = (s.stack f).frame) : Frames s t := by
  intro g hg
  rw [hstack]
  by_cases hgf : g = f
  · subst hgf
    rw [update_self]
    exact hz hg
  · rw [update_of_ne hgf]

/-- Nobody is suspended on the stack of the scheduler. -/
theorem Owned.frame_one (ho : Owned s) : (s.stack 1).frame = none :=
  Stack.frame_of_owner (Stack.free_owner ho.scheduler)

theorem toScheduler_frames (h1 : (s.stack 1).frame = none) : Frames s (toScheduler s) := by
  unfold toScheduler
  split
  · exact .put rfl fun hn => absurd h1 hn
  · exact .put rfl fun hn => absurd h1 hn
  · exact .put rfl fun hn => absurd h1 hn
  · exact .of_eq rfl

theorem leave_frames (hone : (s.stack 1).frame = none) (h1 : s.run ≠ 1)
    (hz : (s.stack s.run).frame ≠ none → z.frame = (s.stack s.run).frame) : Frames s (toScheduler (s.setStack s.run z)) := by
  refine Frames.trans (.put rfl hz) (toScheduler_frames ?_)
  rw [St.setStack_stack, update_of_ne (Ne.symm h1)]
  exact hone

theorem exitFiber_frames (hone : (s.stack 1).frame = none) (hs : (s.stack s.run).frame = none) (l : Loop) :
    Frames s (exitFiber s l) := by
  unfold exitFiber
  split
  · exact .put rfl fun hn => absurd hone hn
  · rename_i h1
    exact leave_frames hone h1 fun hn => absurd hs hn

end Frames

/-! ## Suspensions that return -/

/-- No suspension returns, or the one of `c` on the fiber `g` does: its waker has the status
RESULT, and what is thrown is the error of its waker. -/
inductive Back (s t : St) (x : Choice) : Prop where
  | nobody (hall : Frames s t)
  | one {g c : Nat} {saved : List Nat} {k : Option Loop} (hg : (s.stack g).frame = some (c, saved, k))
    (hret : t.stack g = .code c k) (helse : ∀ f, f ≠ g → (s.stack f).frame ≠ none → (t.stack f).frame = (s.stack f).frame)
    (hst : (t.co c).status = .result) (hex : t.exception = x.error ++ saved)

section Back

variable {s t u : St} {z : Stack} {h : Host} {w : Work} {l : Loop} {x : Choice} {c d : Nat}

/-- Something else has changed before. -/
theorem Back.after (hb : Back u t x) (hframe : ∀ f, (u.stack f).frame = (s.stack f).frame) : Back s t x := by
  cases hb with
  | nobody hall =>
    refine .nobody fun f hf => ?_
    rw [← hframe f] at hf ⊢
    exact hall f hf
  | one hg hret helse hst hex =>
    refine .one ((hframe _).symm.trans hg) hret (fun f hfg hf => ?_) hst hex
    rw [← hframe f] at hf ⊢
    exact helse f hfg hf

theorem wake_back (hs : (s.stack s.run).frame = some (c, saved, k))
    (hst : (s.co c).status = .queued ∨ (s.co c).status = .result) (he : s.exception = []) (x : Choice) :
    Back s (wake s c saved k x) x := by
  have hstack : (wake s c saved k x).stack = update s.stack s.run (.code c k) := by
    unfold wake
    split <;> rfl
  refine .one hs (by rw [hstack, update_self]) (fun f hf _ => by rw [hstack, update_of_ne hf]) ?_ ?_
  · unfold wake
    split
    · simp
    · exact hst.resolve_left ‹_›
  · simp [wake, he]

theorem Executed.back (he : Executed s d x t) (hd : (s.co d).status = .queued) (hex : s.exception = []) : Back s t x := by
  cases he with
  | @wakes u saved k hu hs hco =>
    refine (wake_back ?_ (.inl (by rw [hco, hd])) (hu.exception.trans hex) x).after hu.frame
    rw [hs]
    rfl
  | @begins u hu hs hc l =>
    refine (Back.nobody (Frames.put (f := u.run) rfl fun hn => ?_)).after hu.frame
    exact absurd (Stack.frame_of_owner hs) hn

/-- Not behind a suspension that starts, and not in `finally_shutdown`. -/
def Way.plain : Way → Bool
  | .code _ | .entry _ (some _) | .next _ | .collect _ => false
  | _ => true

theorem Out.back {m : Way} (ho : Owned s) (hs : Still s) (hi : Within s h) (hm : m.Fits h s) (hx : m.Fine x h s)
    (hp : m.plain = true) (hout : Out s x h m t) : Back s t x := by
  have hput : ∀ w, Back s (s.setStack s.run (.host h w)) x := fun w =>
    .nobody (Frames.put rfl fun _ => (hi.frame.trans (Host.frame_eq _ _ _)).symm)
  cases m with
  | entry d aside =>
    obtain ⟨-, hin, hh, hex, ha⟩ := hx
    cases aside with
    | some saved => cases hp
    | none =>
      rcases hout.entry_cases hs ho hi hm ha with ⟨hcd, ht⟩ | ⟨hdi, rfl⟩ | ⟨hdi, he⟩
      · cases h with
        | loop l =>
          rcases hh with hh | hh <;> rw [hh] at hcd
          · cases hcd
          · exact absurd (Option.some.inj hcd).symm hm
        | suspend c saved k =>
          obtain rfl : c = d := Option.some.inj (Eq.trans (Eq.symm hh) hcd)
          rw [ht c saved k rfl]
          exact wake_back hi.frame (.inl (queued_of_inQueue hin (ho.not_ignored hi.place.1))) (hex rfl) x
      · exact .nobody (Frames.put rfl fun _ => (hi.frame.trans (Host.frame_eq _ _ _)).symm)
      · exact he.back (queued_of_inQueue hin hdi) (hex rfl)
  | point w =>
    cases hout
    exact hput w
  | code | collect => cases hp
  | wake =>
    cases hout with
    | @wake c saved k => exact wake_back hi.frame (hx.2 c rfl).2 hx.1 x
  | out failed =>
    cases hout with
    | away | again => exact .nobody (leave_frames ho.frame_one (hi.run_ne ho nofun) fun _ => hi.frame.symm)
    | top => exact hput .top
    | ends => exact .nobody (exitFiber_frames ho.frame_one hi.frame _)
  | pool =>
    cases hout with
    | pools h1 =>
      refine .nobody (Frames.trans (Frames.put rfl fun hf => absurd hi.frame hf) (toScheduler_frames ?_))
      rw [St.setStack_stack, update_of_ne (Ne.symm h1)]
      exact ho.frame_one
  | past | next => cases hout

/-- A coroutine ends. -/
theorem goFinish_frames (hone : (s.stack 1).frame = none) (hs : (s.stack s.run).frame = none) (h1 : s.run ≠ 1) (c : Nat)
    (k : Option Loop) (held : List Nat) (late : Bool) (x : Choice) : Frames s (goFinish s c k held late x) := by
  unfold goFinish
  split
  · exact .put (f := s.run) rfl fun hn => absurd hs hn
  cases k with
  | some l => exact .put (f := s.run) rfl fun hn => absurd hs hn
  | none => exact leave_frames (s := release s c held x) hone h1 fun hn => absurd hs hn

theorem Pre.plain {h' : Host} {m : Way} (hw : w ≠ .starting) (hf : ∀ saved p, w ≠ .final saved p)
    (hp : Pre s x h w h' m u) : m.plain = true := by
  induction hp with
  | settled | unstarted => exact absurd rfl hw
  | final => exact absurd rfl (hf _ _)
  | @placed h _ d held _ aside hh hu =>
    cases aside with
    | some saved => exact absurd hh (hf _ _)
    | none =>
      cases h with
      | loop l => rfl
      | suspend c saved l =>
        unfold Host.behind
        dsimp only
        split <;> rfl
  | popFinal _ _ ih => cases ih hw hf
  | _ => rfl

/-- A step of a tick or a loop, outside of a shutdown. -/
theorem Turn.back (ho : Owned s) (hord : Ordered s) (hu : Undisturbed s (.go x)) (hs : s.stack s.run = .host h w)
    (hw : w ≠ .starting) (ht : Turn s x h w t) : Back s t x := by
  cases ht with
  | @way h' m u _ hp hout =>
    have hsame := hp.same (ho.placed hs)
    have hfinal : ∀ saved p, w ≠ .final saved p := by
      rintro saved p rfl
      have hh := hord.has
      rw [hs] at hh
      cases p with
      | finalize => exact absurd hh.2 (by simp [hu.2])
      | _ => exact absurd hh.2.1 (by simp [hu.2])
    obtain ⟨hou, -, hm⟩ := hp.owned ho hs
    obtain ⟨hst, hi⟩ := hp.still ho hord.still hs
    have hb := hout.back hou hst hi hm (hp.fine ho hord hu.1 hs) (hp.plain hw hfinal)
    exact hb.after fun f => congrArg Stack.frame (congrFun hsame.stack f)
  | @drained l n hh hw =>
    subst hh hw
    refine .nobody fun f hf => ?_
    by_cases hfr : f = s.run
    · subst hfr
      rw [hs] at hf
      exact absurd rfl hf
    · simp only [St.setStack_stack, update_of_ne hfr]
      split
      · rename_i hp
        exact absurd (Stack.frame_of_owner (Stack.pooled_owner ((ho.pool f).1 hp))) hf
      · rfl
  | @last l exit b hh hw =>
    subst hh hw
    refine .nobody (Frames.put (f := s.run) (finishScheduler_frame (s.setStack s.run .fresh) exit).stack fun hn => ?_)
    exact absurd (by rw [hs]; rfl) hn

end Back

/-! ## The result -/

theorem Stack.of_frame {z : Stack} {c : Nat} (hz : z.frame = some (c, saved, k)) :
    ∃ w, z = .host (.suspend c saved k) w := by
  cases z with
  | host h w =>
    cases h with
    | loop l => cases hz
    | suspend d saved l =>
      cases hz
      exact ⟨w, rfl⟩
  | _ => cases hz

/-- What a step does to a suspension, where no destructor suspends. -/
theorem suspension_step {s t : St} {l : Lbl} (hr : (lts.restrict Undisturbed).Reachable s)
    (hst : (lts.restrict Undisturbed).step s l t) {f c : Nat} {w : Work} (hs : s.stack f = .host (.suspend c saved k) w) :
    (∃ w', t.stack f = .host (.suspend c saved k) w') ∨
      ∃ x, l = .go x ∧ t.stack f = .code c k ∧
        ((t.co c).status = .result ∧ (w ≠ .starting → t.exception = x.error ++ saved) ∨
          w = .starting ∧ s.exception ≠ []) := by
  obtain ⟨ho, -, hord⟩ := ordered_inductive.reachable s (hr.restrict_mono fun _ _ hu => hu.1)
  obtain ⟨hu, hstep⟩ := hst
  have hf : (s.stack f).frame = some (c, saved, k) := by rw [hs]; rfl
  have hsome : (s.stack f).frame ≠ none := by rw [hf]; nofun
  -- every other fiber than the one that has control
  have helse : ∀ z, t.stack = update s.stack s.run z → f ≠ s.run → ∃ w', t.stack f = .host (.suspend c saved k) w' :=
    fun z hz hne => ⟨w, by rw [hz, update_of_ne hne, hs]⟩
  have hmove : ∀ z, t.stack = update s.stack s.run z → (s.stack s.run).frame = none →
      ∃ w', t.stack f = .host (.suspend c saved k) w' :=
    fun z hz hn => helse z hz fun hfr => hsome (hfr ▸ hn)
  cases step_cases hstep with
  | op hfo ha => exact .inl ⟨w, by rw [(act_control ha).stack, hs]⟩
  | call hc k =>
    obtain ⟨z, -, hz⟩ := (call_frame hc k).stack
    exact .inl (hmove z hz (by rw [hc]; rfl))
  | polled hc => exact .inl (hmove _ rfl (by rw [hc]; rfl))
  | @finish d k' held late x hc =>
    exact .inl (Stack.of_frame ((goFinish_frames ho.frame_one (by rw [hc]; rfl) (ho.not_scheduler (by rw [hc]; rfl)) d k' held late x f hsome).trans hf))
  | @turn h w₀ x t hc ht =>
    by_cases hw : w₀ = .starting
    · cases ht with
      | drained _ hn | last _ hn =>
        rw [hw] at hn
        cases hn
      | @way h' m u _ hp hout =>
        obtain ⟨rfl, hlines, hm⟩ := hp.starting hw
        simp only [St.lines, Prod.mk.injEq] at hlines
        obtain ⟨hstack, hrun, -⟩ := hlines
        have hother : ∀ z, t.stack = update u.stack u.run z → f ≠ s.run →
            ∃ w', t.stack f = .host (.suspend c saved k) w' := fun z hz hfr => helse z (by rw [hz, hstack, hrun]) hfr
        rcases hm with ⟨w', rfl⟩ | ⟨d, saved', l, e, rfl, rfl, hres⟩
        · cases hout
          by_cases hfr : f = s.run
          · subst hfr
            cases hs.symm.trans hc
            exact .inl ⟨w', by simp [hrun]⟩
          · exact .inl (hother _ rfl hfr)
        · cases hout
          by_cases hfr : f = s.run
          · subst hfr
            cases hs.symm.trans hc
            exact .inr ⟨x, rfl, by simp [hrun], hres.imp (fun hres => ⟨hres, fun hn => absurd hw hn⟩) fun he => ⟨hw, he⟩⟩
          · exact .inl (hother _ rfl hfr)
    · cases ht.back ho hord hu hc hw with
      | nobody hall => exact .inl (Stack.of_frame ((hall f hsome).trans hf))
      | @one g d saved' k' hg hret hother hres hex =>
        by_cases hfg : f = g
        · subst hfg
          cases hf.symm.trans hg
          exact .inr ⟨x, rfl, hret, .inl ⟨hres, fun _ => hex⟩⟩
        · exact .inl (Stack.of_frame ((hother f hfg hsome).trans hf))

/-- **No spurious resumption.** Under `Undisturbed`, where no destructor suspends, a suspension
goes on, or it returns: its waker has the status RESULT and, unless it was settled while its
events were started, what is thrown is the error of its waker; or its events have failed to
start. -/
theorem no_spurious_resumption (s t : St) (under under' : Nat → List Stack) (l : DeepLbl)
    (hr : (deep.restrict (Unsuspended Undisturbed)).Reachable (s, under))
    (hst : (deep.restrict (Unsuspended Undisturbed)).step (s, under) l (t, under')) (f c : Nat) (saved : List Nat)
    (k : Option Loop) (w : Work) (hs : s.stack f = .host (.suspend c saved k) w) :
    (∃ w', t.stack f = .host (.suspend c saved k) w') ∨
      ∃ x, l = .base (.go x) ∧ t.stack f = .code c k ∧
        ((t.co c).status = .result ∧ (w ≠ .starting → t.exception = x.error ++ saved) ∨
          w = .starting ∧ s.exception ≠ []) := by
  obtain ⟨hplain, hu⟩ := (plain_inductive _).reachable _ hr
  obtain ⟨l, rfl, hstep, -⟩ := plain_step hu hst
  obtain hon | ⟨x, rfl, hret⟩ := suspension_step hplain hstep hs
  · exact .inl hon
  · exact .inr ⟨x, rfl, hret⟩

/-- The main coroutine waits and is resumed by another one, with an error: it returns with
that. -/
theorem no_spurious_resumption_error :
    ∃ s t : St, s.stack 0 = .host (.suspend 0 [] none) .away ∧ t.stack 0 = .code 0 none ∧ (t.co 0).status = .result ∧
      t.exception = [9] := by
  obtain ⟨⟨s, under⟩, ⟨t, under'⟩, hr, hrun, hs, ht⟩ := LTS.exists_run_of_execG (G := Unsuspended Undisturbed)
    (show deep.init (start, fun _ => []) from rfl) (f := deepStep)
    ([.op (.spawn false), .call (.suspend false false 0), .go .quiet, .go .quiet, .op (.resume 0 0),
      .call (.suspend false false 0), .go .quiet].map .base) [.base (.go { Choice.quiet with error := [9] })]
    (P := fun p q => p.1.stack 0 = .host (.suspend 0 [] none) .away ∧ q.1.stack 0 = .code 0 none) (by decide +kernel)
  cases hrun with
  | cons hst hnil =>
    cases hnil
    obtain ⟨w, hw⟩ | ⟨x, hx, -, ⟨hres, hex⟩ | ⟨hw, -⟩⟩ :=
      no_spurious_resumption s t under under' _ hr hst 0 0 [] none .away hs
    · rw [show t.stack 0 = .code 0 none from ht] at hw
      cases hw
    · cases hx
      exact ⟨s, t, hs, ht, hres, hex nofun⟩
    · cases hw

/-- **Counterexample.** A coroutine that was cancelled before its start is finalized in the
tick of the main coroutine, which waits, and leaves an exception: the call of the main
coroutine returns, and the exception is thrown into it, while its waker still waits. -/
theorem thrown_into_waiting :
    ∃ s t, lts.Reachable s ∧ s.shutdown = false ∧ s.stack 0 = .host (.suspend 0 [] none) (.finalize 2 [] true) ∧
      lts.step s (.go .quiet) t ∧ t.stack 0 = .code 0 none ∧ (t.co 0).status = .waiting ∧ t.shutdown = false ∧
      t.exception = [7] := by
  obtain ⟨s, t, hr, hst, ⟨hs, hfin⟩, ht⟩ := LTS.exists_step_of_exec (show Init start from rfl) (f := step)
    [.op (.spawn false), .op (.cancel 2 false), .call (.suspend false false 0), .go .quiet, .go .quiet, .op (.throw 7),
      .go .quiet] (.go .quiet)
    (P := fun s t => (s.shutdown = false ∧ s.stack 0 = .host (.suspend 0 [] none) (.finalize 2 [] true)) ∧
      t.stack 0 = .code 0 none ∧ (t.co 0).status = .waiting ∧ t.shutdown = false ∧ t.exception = [7]) (by decide +kernel)
  exact ⟨s, t, hr, hs, hfin, hst, ht⟩

end PhpAsync.L2.Scheduler
