import PhpAsync.L2Scope.AwaitAfter

/-!
# The way of an exception

An exception that a coroutine leaves behind is offered to its scope and to the scopes
above it in order. `Routed` says how it should go: at each scope the handler for child
scopes (if the exception comes from below) and the own handler are asked; the first that
returns absorbs it; otherwise the scope is passed, and the way ends there if a subscriber
marks the exception as handled.

**Hypotheses (`Routable`, about the state before).**
* `fresh`: no scope on the way still holds the mark of an earlier exception; the flag
  `EXCEPTION_HANDLED` of an event is never cleared.
* `single`: where both handlers are, the one for child scopes returns; behind one that
  throws, the own handler is not called.
* `served`: in the safe mode nobody awaits a scope on the way; awaiters are resumed by
  the zombies before the exception comes to them.
* `covered`: beside the way, no open scope lies below one that is stopped or has nobody
  in it; the cancellation turns back there.

**Results.**
* `stale_mark_absorbs`: the counterexample.
* `cancel_covers`: where a cancellation gets to.
* `exception_routed`: under the hypotheses the exception goes as it should.
-/
namespace PhpAsync.L2.Scopes

open PhpAsync.Core

variable {E : Type}

/-! ## Where a cancellation gets to -/

/-- Somebody is in `i`, or below it behind open scopes only. -/
inductive Busy (s : St E) : Nat → Prop
  | here {i d : Nat} (ho : stopped s i = false) (hd : d ∈ (s.scopes i).coroutines) : Busy s i
  | down {i j : Nat} (ho : stopped s i = false) (hj : j ∈ s.kids i) (h : Busy s j) : Busy s i

/-- Below a scope that is not busy everything is stopped. -/
def Covered (s : St E) (i : Nat) : Prop :=
  ∀ m p, Within s.kids i m → Within s.kids m p → m ≠ p → stopped s p = false → Busy s m

variable {L : Nat → Prop} {R R' : Nat → Callback → Option E → Prop} {f t : St E} {j p : Nat}

section Cover

variable {c : Env E} {safely : Bool} {s t : St E} {i : Nat}

theorem Busy.isOpen (h : Busy s i) : stopped s i = false := by
  cases h with
  | here ho _ => exact ho
  | down ho _ _ => exact ho

theorem Busy.not_done (h : Busy s i) (hT : Tree s) (fuel : Nat) :
    canBeDisposed s true false fuel i = false := by
  induction fuel generalizing i with
  | zero => rfl
  | succ fuel ih =>
    have ho : ((s.scopes i).closed || (s.scopes i).cancelled) = false := h.isOpen
    unfold canBeDisposed
    dsimp only
    rw [ho]
    simp only [Bool.not_false, Bool.and_false, Bool.false_eq_true, if_false, if_true, Bool.false_and]
    cases h with
    | @here _ d _ hd =>
      have hpos := List.length_pos_of_mem hd
      have hcount := hT.counted i
      rw [if_pos (by omega)]
    | @down _ j _ hj hb =>
      split
      · rfl
      · refine List.all_eq_false.2 ⟨j, hj, ?_⟩
        rw [ih hb]
        exact Bool.false_ne_true

/-- Nobody leaves, and nothing is stopped on the way to them. -/
theorem Busy.later (h : Busy s i) (hT : Tree s)
    (hsame : ∀ x, x < s.nScopes → (s.scopes x).Same (t.scopes x))
    (hkids : ∀ x, x < s.nScopes → s.kids x ⊆ t.kids x)
    (hopen : ∀ p, Within s.kids i p → stopped t p = true → stopped s p = true) : Busy t i := by
  have hstill : ∀ p, Within s.kids i p → stopped s p = false → stopped t p = false := by grind
  induction h with
  | @here i d ho hd =>
    refine .here (hstill i (.refl i) ho) (d := d) ?_
    rw [(hsame i (hT.living i (hT.alive_of_member hd))).coroutines]
    exact hd
  | @down i j ho hj _ ih =>
    refine .down (hstill i (.refl i) ho) (hkids i (hT.living i (hT.alive_of_kid hj)) hj)
      (ih (fun p hp => hopen p (.down hj hp)) fun p hp => hstill p (.down hj hp))

theorem Holds.mono (h : Holds R s t) (hR : ∀ i cb e, R i cb e → R' i cb e) : Holds R' s t :=
  { h with
    handled := fun i hi hno => h.handled i hi fun cb e hr => hno cb e (hR _ _ _ hr)
    callbacks := fun i hi cb hcb => (h.callbacks i hi cb hcb).imp_right fun ⟨ha, b, e, hr⟩ => ⟨ha, b, e, hR _ _ _ hr⟩ }

theorem Holds.stopped (h : Holds R s t) (hT : Tree s) (hp : stopped s p = true) : stopped t p = true :=
  (h.same p (hT.lt_of_stopped hp)).stopped hp

/-- An operation beside the subtree of `i` leaves it covered. -/
theorem Covered.beside (h : Covered s i) (hT : Tree s) (hi : i < s.nScopes)
    (hsame : ∀ x, x < s.nScopes → (s.scopes x).Same (t.scopes x)) (hkids : ∀ x, x < s.nScopes → s.kids x ⊆ t.kids x)
    (hold : ∀ m p, Within s.kids i m → Within t.kids m p → Within s.kids m p)
    (hopen : ∀ p, Within s.kids i p → stopped t p = true → stopped s p = true) : Covered t i := by
  intro m p hm hp hne ho
  have hm' := hold i m (.refl i) hm
  have hp' := hold m p hm' hp
  have ho' : stopped s p = false := by
    rw [Bool.eq_false_iff] at ho ⊢
    exact fun hst => ho ((hsame p ((hm'.trans hp').lt hT.forest hi)).stopped hst)
  exact (h m p hm' hp' hne ho').later hT hsame hkids fun q hq => hopen q (hm'.trans hq)

theorem Covered.evolves (h : Covered s i) (hT : Tree s) (hi : i < s.nScopes) (hev : Evolves L L s t) (hh : Holds R s t)
    (hL : ∀ p, Within s.kids i p → ¬ L p) : Covered t i :=
  h.beside hT hi hh.same hh.kids (fun _ _ hm => hev.within_old fun q hq hN => hL q (hm.trans hq) hN.1)
    fun p hp hst => (hev.stopped hst).resolve_right (hL p hp)

/-- The children's subtrees as they were in `f`. -/
theorem stop_covers {kid : St E → Nat → St E} (hT : Tree s) (ha : (s.scopes i).alive = true) (e : E)
    (hkid : Turns c safely kid) (hsub : f.kids i ⊆ s.kids i)
    (hkids : ∀ j ∈ f.kids i, ∀ u, Others c safely s i j s u → ∀ p, Within f.kids j p → stopped (kid u j) p = true) :
    ((stop c safely kid s i e).scopes i).cancelled = true ∧
      ∀ p, Within f.kids i p → stopped (stop c safely kid s i e) p = true := by
  have hi := hT.living i ha
  obtain ⟨hacts, hflag, hQ⟩ := cancelChildren_rule (P := fun u => (u.scopes i).cancelled = true)
    (Q := fun j u => j ∈ f.kids i → ∀ p, Within f.kids j p → stopped u p = true) hT ha hkid
    (by unfold setCancelled; rw [setScope_self])
    (fun j hj u hu hP => by
      have hTu := hu.tree hT
      have hlt : i < u.nScopes := Nat.lt_of_lt_of_le hi (hu.evolves hT).nScopes
      exact ⟨(((hkid u j hTu (hu.kid_alive hT hj)).holds hTu).same i hlt).cancelled hP, fun hj' => hkids j hj' u hu⟩)
    fun j _ u v hu huv hQ hj p hp => (huv.holds (hu.tree hT)).stopped (hu.tree hT) (hQ hj p hp)
  have hT₂ := hacts.tree hT
  have hsoft : Soft _ (stop c safely kid s i e) :=
    (soft_cancelCoroutines (c := c) safely hT₂ i).trans (soft_notify c _ i (some e))
  have hcancelled : ((stop c safely kid s i e).scopes i).cancelled = true := by
    rw [(hsoft.scope i).cancelled]
    exact hflag
  refine ⟨hcancelled, fun p hp => ?_⟩
  cases hp with
  | refl =>
    unfold stopped
    rw [hcancelled, Bool.or_true]
  | @down _ j _ hj hp =>
    rw [hsoft.stopped p]
    exact hQ j (hsub hj) hj p hp

/-- **Where a cancellation gets to.** -/
theorem cancel_covers {n : Nat} (fuel : Nat) (hT : Tree s) (ha : (s.scopes i).alive = true)
    (hn : ∀ x, Within s.kids i x → x < n) (hfuel : n ≤ i + fuel) (h : Covered s i) (e : Option E) :
    ∀ p, Within s.kids i p → stopped (cancel c safely fuel s i e) p = true := by
  induction fuel generalizing s i e with
  | zero => exact absurd (hn i (.refl i)) (Nat.not_lt.2 hfuel)
  | succ fuel ih =>
    have hhold := (acts_cancel (c := c) safely (fuel + 1) hT ha e).holds hT
    -- a scope where the cancellation turns back is not busy
    have hback : ¬ Busy s i → stopped (cancel c safely (fuel + 1) s i e) i = true →
        ∀ p, Within s.kids i p → stopped (cancel c safely (fuel + 1) s i e) p = true := by
      intro hno hself p hp
      by_cases hip : i = p
      · exact hip ▸ hself
      · refine hhold.stopped hT ?_
        by_contra ho
        exact hno (h i p (.refl i) hp hip (by simpa using ho))
    by_cases hclosed : (s.scopes i).closed = true
    · have hst : stopped s i = true := by
        unfold stopped
        rw [hclosed, Bool.true_or]
      refine hback (fun hb => ?_) (hhold.stopped hT hst)
      rw [hb.isOpen] at hst
      cases hst
    · by_cases hdone : isCompletelyDone s i = true
      · refine hback (fun hb => ?_) ?_
        · grind [hb.not_done, isCompletelyDone]
        · have hst : stopped (close s i) i = true := by grind [St.write_scopes, setScope_self, stopped, close]
          unfold cancel
          rw [if_neg hclosed, if_pos hdone]
          have hi := hT.living i ha
          exact ((Holds.start (R := fun _ _ _ => True) (s := close s i) hi).same i hi).stopped hst
      · unfold cancel
        rw [if_neg hclosed, if_neg hdone]
        refine (stop_covers hT ha _ (turns_cancel safely fuel _) (List.Subset.refl _) fun j hj u hu p hp => ?_).2
        have hyoung := hT.forest.younger i j hj
        have hcov : Covered u j := Covered.evolves (fun m q hm => h m q (.down hj hm)) hT (hT.forest.known i j hj)
          (hu.evolves hT) (hu.holds hT) fun q hq hA => hA.2 hq
        exact ih (hu.tree hT) (hu.kid_alive hT hj) (fun x hx => hn x (.down hj ((aside_keeps hT hj hu).1 x hx)))
          (by omega) hcov _ p ((hu.holds hT).within hT hp)

end Cover

/-! ## Subscribers -/

/-- A subscriber of `i` marks exceptions as handled. -/
def marked (s : St E) (i : Nat) : Bool := (s.scopes i).callbacks.any Callback.marks

section Notify

variable {c : Env E} {i : Nat} {s : St E}

/-- All subscribers are notified, and the mark is theirs. -/
theorem notify_spec (c : Env E) (s : St E) (i : Nat) (x : E) :
    ((notify c s i (some x)).scopes i).handled = ((s.scopes i).handled || marked s i) ∧
      ∀ cb ∈ (s.scopes i).callbacks, Event.notified i cb (some x) ∈ (notify c s i (some x)).log := by
  have key : ∀ (l : List Callback) (u : St E),
      ((l.foldl (callback c i (some x)) u).scopes i).handled = ((u.scopes i).handled || l.any Callback.marks) ∧
        u.log ⊆ (l.foldl (callback c i (some x)) u).log ∧
        ∀ cb ∈ l, Event.notified i cb (some x) ∈ (l.foldl (callback c i (some x)) u).log := by
    intro l
    induction l with
    | nil => exact fun u => ⟨(Bool.or_false _).symm, List.Subset.refl _, fun _ h => by cases h⟩
    | cons b l ih =>
      intro u
      obtain ⟨cbs, new, -, heq⟩ := callback_answer c i (some x) u b
      obtain ⟨hmark, hlog, hmem⟩ := ih (callback c i (some x) u b)
      have hself : ((callback c i (some x) u b).scopes i).handled = ((u.scopes i).handled || b.marks) := by
        rw [heq]
        exact congrArg Scope.handled (setScope_self ..)
      have hnew : (callback c i (some x) u b).log = u.log ++ .notified i b (some x) :: new := congrArg St.log heq
      refine ⟨?_, fun y hy => hlog ?_, fun cb hcb => ?_⟩
      · rw [List.foldl_cons, hmark, hself, List.any_cons, Bool.or_assoc]
      · rw [hnew]
        exact List.mem_append_left _ hy
      · rcases List.mem_cons.1 hcb with rfl | hcb
        · exact hlog (by rw [hnew]; exact List.mem_append_right _ List.mem_cons_self)
        · exact hmem cb hcb
  exact ⟨(key _ s).1, (key _ s).2.2⟩

theorem marked_eq (h : (t.scopes i).callbacks ⊆ (s.scopes i).callbacks)
    (h' : (s.scopes i).callbacks ⊆ (t.scopes i).callbacks) : marked t i = marked s i := by
  unfold marked
  rw [Bool.eq_iff_iff, List.any_eq_true, List.any_eq_true]
  exact ⟨fun ⟨cb, hcb, hm⟩ => ⟨cb, h hcb, hm⟩, fun ⟨cb, hcb, hm⟩ => ⟨cb, h' hcb, hm⟩⟩

end Notify

/-! ## Before the subscribers are notified -/

section Stop

variable {c : Env E} {safely : Bool} {s t : St E} {k : Nat} {P : Nat → Prop}

/-- Subscribers are called in `P`; elsewhere by zombies only, in the safe mode and without
an exception. -/
def Calls (P : Nat → Prop) (safely : Bool) (q : Nat) (_ : Callback) (e : Option E) : Prop :=
  P q ∨ safely = true ∧ e = none

/-- Outside of `P` nothing is marked, and only awaiters leave. -/
theorem Holds.outside (h : Holds (Calls P safely) s t) (hk : k < s.nScopes) (hP : ¬ P k)
    (hmode : safely = true → awaited s k = false) :
    (t.scopes k).handled = (s.scopes k).handled ∧ (s.scopes k).callbacks ⊆ (t.scopes k).callbacks := by
  refine ⟨h.handled k hk fun cb e hR => ?_, fun cb hcb => ?_⟩
  · rcases hR with hR | ⟨-, he⟩
    · exact hP hR
    · cases he
  · rcases h.callbacks k hk cb hcb with h | ⟨⟨a, ha⟩, b, e, hR⟩
    · exact h
    · have hw : cb.awaits = true := by
        cases cb with
        | awaiter => rfl
        | other => cases ha
      rcases hR with hR | ⟨hs, -⟩
      · exact absurd hR hP
      · rw [awaited_of hcb hw] at hmode
        cases hmode hs

/-- All subscribers of `k` are notified, and the mark is theirs. -/
theorem stop_notifies {kid : St E → Nat → St E} (hT : Tree s) (ha : (s.scopes k).alive = true) (e : E)
    (hkid : Turns c safely kid) (hmode : safely = true → awaited s k = false) :
    (∀ cb ∈ (s.scopes k).callbacks, Event.notified k cb (some e) ∈ (stop c safely kid s k e).log) ∧
      ((stop c safely kid s k e).scopes k).handled = ((s.scopes k).handled || marked s k) := by
  obtain ⟨hacts, hhold, -⟩ := cancelChildren_rule (P := Holds (Calls (· ≠ k) safely) s) (Q := fun _ _ => True) hT ha hkid
    (Act.holds (c := c) (F := Any) (L := Never) (.flag trivial ha) hT)
    (fun j hj u hu hP => by
      refine ⟨hP.trans (((hkid u j (hu.tree hT) (hu.kid_alive hT hj)).mono (fun _ => id) (fun _ => id) (fun _ => id)
        fun q _ _ hR => ?_).holds (hu.tree hT)), trivial⟩
      rcases hR.2 with ⟨hw, -⟩ | ⟨hs, he, -⟩
      · have := hw.le (hu.tree hT).forest
        have := hT.forest.younger k j hj
        exact .inl (by omega)
      · exact .inr ⟨hs, he⟩)
    fun _ _ _ _ _ _ _ => trivial
  have hT₂ := hacts.tree hT
  -- zombies notify without an exception, and only in the safe mode
  have hco : Acts c Never Never Never (Calls (· ≠ k) safely) (cancelChildren kid (setCancelled s k) k)
      (cancelCoroutines c safely (cancelChildren kid (setCancelled s k) k) k) :=
    acts_cancelCoroutines safely hT₂ (Q := Any)
      (fun hs => ⟨fun _ _ _ _ => trivial, fun _ _ _ _ => .inr ⟨hs, rfl⟩⟩) trivial
  obtain ⟨hhandled, hsubs⟩ :=
    (hhold.trans (hco.holds hT₂)).outside (hT.living k ha) (fun h => h rfl) hmode
  have hback := List.Subset.trans ((soft_cancelCoroutines (c := c) safely hT₂ k).scope k).callbacks
    ((hacts.evolves hT).callbacks k)
  obtain ⟨hmark, hnotified⟩ := notify_spec c (cancelCoroutines c safely (cancelChildren kid (setCancelled s k) k) k) k e
  rw [marked_eq hback hsubs, hhandled] at hmark
  exact ⟨fun cb hcb => hnotified cb (hsubs hcb), hmark⟩

end Stop

/-! ## The way as it should be -/

/-- The handlers of a scope in the order they are asked. -/
def asked (x : Scope) (below : Bool) : List Bool :=
  (if below && x.childHandler then [true] else []) ++ (if x.handler then [false] else [])

/-- The handlers of `i` are asked until one returns (`none`); otherwise the exception goes
on, merged with those thrown. -/
def ask (c : Env E) (o : Owner) (i : Nat) (e : E) : Nat → List Bool → E → List (Call E) × Option E
  | _, [], x => ([], some x)
  | n, b :: bs, x =>
    match c.handler n i b e with
    | none => ([⟨i, b, o, e⟩], none)
    | some y =>
      (⟨i, b, o, e⟩ :: (ask c o i e (n + 1) bs (c.merge x y)).1, (ask c o i e (n + 1) bs (c.merge x y)).2)

/-- The handlers called, the scopes passed with the exception their subscribers see, and
whether the exception is handled. -/
structure Routing (E : Type) where
  calls : List (Call E)
  passed : List (Nat × E)
  handled : Bool

inductive Routed (c : Env E) (f : St E) (o : Owner) : Nat → Nat → Bool → E → Routing E → Prop
  | absorbed {n i : Nat} {below : Bool} {e : E} {l : List (Call E)}
      (h : ask c o i e n (asked (f.scopes i) below) e = (l, none)) :
      Routed c f o n i below e ⟨l, [], true⟩
  | marked {n i : Nat} {below : Bool} {e x : E} {l : List (Call E)}
      (h : ask c o i e n (asked (f.scopes i) below) e = (l, some x)) (hm : marked f i = true) :
      Routed c f o n i below e ⟨l, [(i, x)], true⟩
  | unhandled {n i : Nat} {below : Bool} {e x : E} {l : List (Call E)}
      (h : ask c o i e n (asked (f.scopes i) below) e = (l, some x)) (hm : marked f i = false)
      (hp : (f.scopes i).parent = none) : Routed c f o n i below e ⟨l, [(i, x)], false⟩
  | up {n i p : Nat} {below : Bool} {e x : E} {l : List (Call E)} {r : Routing E}
      (h : ask c o i e n (asked (f.scopes i) below) e = (l, some x)) (hm : marked f i = false)
      (hp : (f.scopes i).parent = some p) (hr : Routed c f o (n + l.length) p true x r) :
      Routed c f o n i below e ⟨l ++ r.calls, (i, x) :: r.passed, r.handled⟩

/-- `try_to_handle_exception` asks like this, unless both handlers are there and the first
throws. -/
theorem tryToHandleException_ask (c : Env E) (o : Owner) (u : St E) (i : Nat) (origin : Option Nat)
    (e : E) (hsingle : origin.isSome = true → (u.scopes i).handler = true →
      (u.scopes i).childHandler = true → ∀ n x, c.handler n i true x = none) :
    ∃ l v, tryToHandleException c false (some o) u i origin e = (heard u l, v) ∧
      ((v = .handled ∧ ask c o i e u.calls.length (asked (u.scopes i) origin.isSome) e = (l, none)) ∨
        ∃ thrown, v = .passed thrown ∧
          ask c o i e u.calls.length (asked (u.scopes i) origin.isSome) e = (l, some (onward c e thrown))) := by
  have hnone : heard u [] = u := by
    unfold heard
    rw [List.append_nil]
  unfold tryToHandleException asked
  cases hh : (u.scopes i).handler with
  | false =>
    cases hch : (u.scopes i).childHandler with
    | false => exact ⟨[], .passed none, by simp [hnone], .inr ⟨none, rfl, by simp [ask, onward]⟩⟩
    | true =>
      cases hor : origin.isSome with
      | false => exact ⟨[], .passed none, by simp [hnone], .inr ⟨none, rfl, by simp [ask, onward]⟩⟩
      | true =>
        cases hans : c.handler u.calls.length i true e with
        | none =>
          exact ⟨[⟨i, true, o, e⟩], .handled, by simp [offer, heard, hans], .inl ⟨rfl, by simp [ask, hans]⟩⟩
        | some x =>
          exact ⟨[⟨i, true, o, e⟩], .passed (some x), by simp [offer, heard, hans],
            .inr ⟨some x, rfl, by simp [ask, hans, onward]⟩⟩
  | true =>
    cases hor : origin.isSome && (u.scopes i).childHandler with
    | true => grind [offer, heard, ask, onward]
    | false =>
      cases hans : c.handler u.calls.length i false e with
      | none =>
        exact ⟨[⟨i, false, o, e⟩], .handled, by simp [offer, heard, hans], .inl ⟨rfl, by simp [ask, hans]⟩⟩
      | some x =>
        exact ⟨[⟨i, false, o, e⟩], .passed (some x), by simp [offer, heard, hans],
          .inr ⟨some x, rfl, by simp [ask, hans, onward]⟩⟩

/-! ## The way as it is -/

/-- In the subtree through which the exception from `k` has come to `i`, or new. -/
def Inner (f : St E) (i k x : Nat) : Prop :=
  (∃ j ∈ f.kids i, Within f.kids j k ∧ Within f.kids j x) ∨ f.nScopes ≤ x

/-- What the way of an exception from `k` asks of the state (see the module doc). -/
structure Routable (c : Env E) (safely : Bool) (f : St E) (k : Nat) : Prop where
  fresh : ∀ q, Within f.kids q k → (f.scopes q).handled = false
  single : ∀ q, Within f.kids q k → q ≠ k → (f.scopes q).handler = true →
    (f.scopes q).childHandler = true → ∀ n x, c.handler n q true x = none
  served : safely = true → ∀ q, Within f.kids q k → awaited f q = false
  covered : ∀ q j, Within f.kids q k → j ∈ f.kids q → ¬ Within f.kids j k → Covered f j

/-- The exception from `k` has come to `i`; everything it has done lies behind it. -/
structure Along (safely : Bool) (f : St E) (k : Nat) (u : St E) (i : Nat) : Prop where
  path : Within f.kids i k
  evolves : Evolves (Inner f i k) (Inner f i k) f u
  holds : Holds (Calls (Inner f i k) safely) f u
  stopped : ∀ x, x < f.nScopes → Inner f i k x → stopped u x = true

/-- What a scope that is passed with `x` has seen. -/
structure Passed (f t : St E) (q : Nat) (x : E) : Prop where
  cancelled : (t.scopes q).cancelled = true
  below : ∀ p, Within f.kids q p → stopped t p = true
  notified : ∀ cb ∈ (f.scopes q).callbacks, Event.notified q cb (some x) ∈ t.log

section Way

variable {c : Env E} {safely : Bool} {f u : St E} {k i : Nat}

theorem Passed.later {v : St E} {x : E} (h : Passed f t i x) (hT : Tree t) (hh : Holds R t v) : Passed f v i x where
  cancelled := by
    have hst : Scopes.stopped t i = true := h.below i (.refl i)
    exact (hh.same i (hT.lt_of_stopped hst)).cancelled h.cancelled
  below p hp := hh.stopped hT (h.below p hp)
  notified cb hcb := by
    obtain ⟨l, hl⟩ := hh.log
    rw [hl]
    exact List.mem_append_left _ (h.notified cb hcb)

theorem not_inner (hT : Tree f) (hi : i < f.nScopes) : ¬ Inner f i k i := by
  rintro (⟨j, hj, -, hji⟩ | hn)
  · have := hji.le hT.forest
    have := hT.forest.younger i j hj
    omega
  · omega

namespace Along

theorem start (hT : Tree f) (safely : Bool) (k : Nat) : Along safely f k f k where
  path := .refl k
  evolves := .refl hT
  holds := .refl f
  stopped x hx hin := by
    rcases hin with ⟨j, hj, hjk, -⟩ | hn
    · have := hjk.le hT.forest
      have := hT.forest.younger k j hj
      omega
    · exact absurd hx (Nat.not_lt.2 hn)

theorem heard (h : Along safely f k u i) (l : List (Call E)) : Along safely f k (heard u l) i :=
  ⟨h.path, h.evolves.rest _ _ _ _, { h.holds with }, h.stopped⟩

theorem lt (h : Along safely f k u i) (hT : Tree f) (hk : k < f.nScopes) : i < f.nScopes :=
  Nat.lt_of_le_of_lt (h.path.le hT.forest) hk

/-- A child beside the way is as it was. -/
theorem beside (h : Along safely f k u i) (hT : Tree f) (hj : j ∈ f.kids i) (hoff : ¬ Within f.kids j k)
    (hcov : Covered f j) : Covered u j := by
  have hknown := hT.forest.known i j hj
  refine hcov.evolves hT hknown h.evolves h.holds fun p hp hin => ?_
  rcases hin with ⟨j', hj', hj'k, hj'p⟩ | hn
  · grind [hT.forest.disjoint]
  · exact absurd (hp.lt hT.forest hknown) (Nat.not_lt.2 hn)

/-- **One scope is passed.** -/
theorem passes (h : Along safely f k u i) (hT : Tree f) (hk : k < f.nScopes) (hG : Routable c safely f k)
    (ha : (u.scopes i).alive = true) (x : E) :
    Passed f (pass c safely u i x) i x ∧ ((pass c safely u i x).scopes i).handled = marked f i := by
  have hi := h.lt hT hk
  have hTu := h.evolves.tree
  have hkid : Turns c safely _ := turns_cancel safely (u.nScopes + 1) none
  obtain ⟨hcancelled, hbelow⟩ := stop_covers (c := c) (f := f) hTu ha x hkid (h.holds.kids i hi) (by
    intro j hj w hw p hp
    have hknown := hT.forest.known i j hj
    have hju : j ∈ u.kids i := h.holds.kids i hi hj
    have hlt : j < u.nScopes := Nat.lt_of_lt_of_le hknown h.holds.nScopes
    have hTw := hw.tree hTu
    have hhold := hw.holds hTu
    by_cases hon : Within f.kids j k
    · -- the way led through `j`
      have hst := h.stopped p (hp.lt hT.forest hknown) (.inl ⟨j, hj, hon, hp⟩)
      exact ((hkid w j hTw (hw.kid_alive hTu hju)).holds hTw).stopped hTw (hhold.stopped hTu hst)
    · have hcov : Covered w j := (h.beside hT hj hon (hG.covered i j h.path hj hon)).evolves hTu hlt
        (hw.evolves hTu) hhold fun q hq hA => hA.2 hq
      exact cancel_covers (n := u.nScopes) _ hTw (hw.kid_alive hTu hju)
        (fun y hy => ((aside_keeps hTu hju hw).1 y hy).lt hTu.forest hlt) (by omega) hcov none p
        (hhold.within hTu (h.holds.within hT hp)))
  obtain ⟨hhandled, hsubs⟩ := h.holds.outside hi (not_inner hT hi) fun hs => hG.served hs i h.path
  obtain ⟨hnot, hmark⟩ := stop_notifies (c := c) hTu ha x hkid fun hs => Bool.eq_false_iff.2 fun hw =>
    Bool.eq_false_iff.1 (hG.served hs i h.path) (awaited_mono (h.evolves.callbacks i) hw)
  refine ⟨⟨hcancelled, hbelow, fun cb hcb => hnot cb (hsubs hcb)⟩, ?_⟩
  rw [marked_eq (h.evolves.callbacks i) hsubs, hhandled, hG.fresh i h.path, Bool.false_or] at hmark
  exact hmark

/-- Everything that has happened behind `i` and at it lies at or below `i`. -/
theorem evolved (h : Along safely f k u i) (ha : (u.scopes i).alive = true) (x : E) :
    Evolves (Dom f i) (Dom f i) f (pass c safely u i x) := by
  have hin : ∀ y, Inner f i k y → Dom f i y := fun y hy =>
    hy.imp (fun ⟨j, hj, _, hjy⟩ => .down hj hjy) id
  have hdom : ∀ y, Dom u i y → Dom f i y := fun y hy => dom_later h.evolves hy
  exact (h.evolves.mono hin hin).trans (((acts_pass safely h.evolves.tree ha x).evolves h.evolves.tree).mono hdom hdom)

/-- The child of `p` on the way is `i`. -/
theorem inner (h : Along safely f k u i) (hT : Tree f) (hmem : i ∈ f.kids p) {y : Nat} (hy : y < f.nScopes)
    (hin : Inner f p k y) : Within f.kids i y := by
  rcases hin with ⟨j, hj, hjk, hjy⟩ | hn
  · have hji : j = i := by
      by_contra hne
      exact hT.forest.disjoint hj hmem hne hjk h.path
    exact hji ▸ hjy
  · exact absurd hy (Nat.not_lt.2 hn)

theorem up (h : Along safely f k u i) (hT : Tree f) (hk : k < f.nScopes) (hG : Routable c safely f k)
    (ha : (u.scopes i).alive = true) (x : E) (hp : (f.scopes i).parent = some p) :
    Along safely f k (pass c safely u i x) p := by
  have hTu := h.evolves.tree
  have hmem := hT.linked i p hp
  have hdom : ∀ y, Dom f i y → Inner f p k y := fun y hy => hy.imp (fun hw => ⟨i, hmem, h.path, hw⟩) id
  refine ⟨.down hmem h.path, (h.evolved ha x).mono hdom hdom, .trans (h.holds.mono fun q _ _ hq => ?_)
    (((acts_pass safely hTu ha x).mono (fun _ => id) (fun _ => id) (fun _ => id) fun q _ _ hR => ?_).holds hTu),
    fun y hy hin => (h.passes hT hk hG ha x).1.below y (h.inner hT hmem hy hin)⟩
  · exact hq.imp_left fun hin => hdom q (hin.imp (fun ⟨j, hj, _, hjq⟩ => .down hj hjq) id)
  · rcases hR.2 with ⟨hw, -⟩ | ⟨hs, he, -⟩
    · exact .inl (hdom q (dom_later h.evolves (.inl hw)))
    · exact .inr ⟨hs, he⟩

end Along

/-- What has come of the exception in the state `t`. -/
structure Arrived (f : St E) (k i : Nat) (u t : St E) (ok : Bool) (r : Routing E) : Prop where
  calls : t.calls = u.calls ++ r.calls
  report : ok = r.handled
  passed : ∀ q x, (q, x) ∈ r.passed → Passed f t q x
  spared : ∀ p, p < f.nScopes → ¬ Inner f i k p → (∀ q x, (q, x) ∈ r.passed → ¬ Within f.kids q p) →
    (t.scopes p).closed = (f.scopes p).closed ∧ (t.scopes p).cancelled = (f.scopes p).cancelled
  holds : Holds (fun _ _ _ => True) u t

theorem Evolves.spared (hev : Evolves L L f t) (hs : (f.scopes p).Same (t.scopes p)) (hL : ¬ L p) :
    (t.scopes p).closed = (f.scopes p).closed ∧ (t.scopes p).cancelled = (f.scopes p).cancelled := by
  constructor
  · rw [Bool.eq_iff_iff]
    exact ⟨fun h => (hev.closed p h).resolve_right hL, hs.closed⟩
  · rw [Bool.eq_iff_iff]
    exact ⟨fun h => (hev.cancelled p h).resolve_right hL, hs.cancelled⟩

/-- **The way of the exception.** By induction on the depth of the scope it has come to. -/
theorem arrives (o : Owner) (hT : Tree f) (hk : k < f.nScopes) (hG : Routable c safely f k) (fuel : Nat)
    (h : Along safely f k u i) (ha : (u.scopes i).alive = true) (origin : Option Nat)
    (ho : origin.isSome = true → i ≠ k) (hfuel : i < fuel) (e : E) :
    ∃ r, Routed c f o u.calls.length i origin.isSome e r ∧
      Arrived f k i u (catch_ c false safely (some o) fuel u i origin e).1
        (catch_ c false safely (some o) fuel u i origin e).2 r := by
  induction fuel generalizing u i origin e with
  | zero => exact absurd hfuel (Nat.not_lt_zero i)
  | succ fuel ih =>
    have hi := h.lt hT hk
    have hsame := h.holds.same i hi
    have hask : asked (u.scopes i) origin.isSome = asked (f.scopes i) origin.isSome := by
      unfold asked
      rw [hsame.handler, hsame.childHandler]
    obtain ⟨l, v, heq, hv⟩ := tryToHandleException_ask c o u i origin e (fun hor hh hch => by
      grind [hsame.handler, hsame.childHandler, hG.single, h.path])
    rw [hask] at hv
    have h' := h.heard l
    rcases hv with ⟨rfl, hask'⟩ | ⟨thrown, rfl, hask'⟩
    · refine ⟨_, .absorbed hask', ?_⟩
      unfold catch_
      rw [heq]
      exact ⟨rfl, rfl, fun _ _ hq => (List.not_mem_nil hq).elim,
        fun p hp hin _ => h'.evolves.spared (h'.holds.same p hp) hin, { Holds.refl (R := fun _ _ _ => True) (heard u l) with }⟩
    · -- `x` is what the subscribers see
      generalize hx : onward c e thrown = x at hask'
      have hTu := h'.evolves.tree
      have hacts := acts_pass (c := c) safely hTu ha x
      obtain ⟨hpassed, hmark⟩ := h'.passes hT hk hG ha x
      have hhold : Holds (fun _ _ _ => True) u (pass c safely (heard u l) i x) :=
        { (hacts.holds hTu).mono fun _ _ _ _ => trivial with }
      have hcalls : (pass c safely (heard u l) i x).calls = u.calls ++ l := hacts.calls.1
      have hev : Evolves (Dom f i) (Dom f i) f (pass c safely (heard u l) i x) := h'.evolved ha x
      have hsames : ∀ p, p < f.nScopes → (f.scopes p).Same ((pass c safely (heard u l) i x).scopes p) :=
        fun p hp => (h.holds.same p hp).trans (hhold.same p (Nat.lt_of_lt_of_le hp h.holds.nScopes))
      -- the way ends at `i`
      have hends : ∀ ok, Arrived f k i u (pass c safely (heard u l) i x) ok ⟨l, [(i, x)], ok⟩ := by
        intro ok
        refine ⟨hcalls, rfl, fun q y hq => ?_, fun p hp _ hnot => ?_, hhold⟩
        · cases List.mem_singleton.1 hq
          exact hpassed
        · refine hev.spared (hsames p hp) fun hdom => ?_
          rcases hdom with hw | hn
          · exact hnot i x (List.mem_singleton.2 rfl) hw
          · exact absurd hp (Nat.not_lt.2 hn)
      rw [catch_passed heq hx]
      cases hm : marked f i with
      | true =>
        rw [if_pos (by rw [hmark]; exact hm)]
        exact ⟨_, .marked hask' hm, hends true⟩
      | false =>
        rw [if_neg (by rw [hmark, hm]; exact Bool.false_ne_true), (hsames i hi).parent]
        cases hp : (f.scopes i).parent with
        | none => exact ⟨_, .unhandled hask' hm hp, hends false⟩
        | some p =>
          have hmem := hT.linked i p hp
          have hyoung := hT.forest.younger p i hmem
          have hup := h'.up hT hk hG ha x hp
          have hap : ((pass c safely (heard u l) i x).scopes p).alive = true := by
            grind [hup.evolves.tree.parent_alive, (hsames i hi).parent]
          have hpk : p ≠ k := by
            rintro rfl
            have := h.path.le hT.forest
            omega
          obtain ⟨r, hr, harr⟩ := ih hup hap (some i) (fun _ => hpk) (by omega) x
          have hlen : (pass c safely (heard u l) i x).calls.length = u.calls.length + l.length := by
            rw [hcalls, List.length_append]
          rw [hlen] at hr
          refine ⟨_, .up hask' hm hp hr, ?_, harr.report, fun q y hq => ?_, fun y hy _ hnot => ?_,
            hhold.trans harr.holds⟩
          · rw [harr.calls, hcalls, List.append_assoc]
          · rcases List.mem_cons.1 hq with hq | hq
            · cases hq
              exact hpassed.later hup.evolves.tree harr.holds
            · exact harr.passed q y hq
          · exact harr.spared y hy (fun hin => hnot i x List.mem_cons_self (h.inner hT hmem hy hin))
              fun q z hq => hnot q z (List.mem_cons_of_mem _ hq)

end Way

/-! ## Failing coroutines -/

section Fails

variable {c : Env E} {s : St E} {i d : Nat}

theorem Routable.finishing {safely : Bool} (h : Routable c safely s i) (hT : Tree s)
    (ha : (s.scopes i).alive = true) (hd : d < s.nCoroutines) :
    Routable c safely (finishing s d i) i := by
  have hi := hT.living i ha
  have hg := grows_finishing (F := Never) hT ha hd
  have hh := holds_finishing (R := fun _ _ _ => True) hi d
  have hback : ∀ q, Within (Scopes.finishing s d i).kids q i → Within s.kids q i ∧ q < s.nScopes := by
    intro q hq
    have hq' : Within s.kids q i := hg.within hq hi
    exact ⟨hq', Nat.lt_of_le_of_lt (hq'.le hT.forest) hi⟩
  refine ⟨fun q hq => ?_, fun q hq hne hh hch => ?_, fun hs q hq => ?_, fun q j hq hj hoff => ?_⟩
  · obtain ⟨hq', hlt⟩ := hback q hq
    rw [finishing_field Scope.handled (fun _ _ _ => rfl) hi d hlt]
    exact h.fresh q hq'
  · obtain ⟨hq', hlt⟩ := hback q hq
    rw [finishing_field Scope.handler (fun _ _ _ => rfl) hi d hlt] at hh
    rw [finishing_field Scope.childHandler (fun _ _ _ => rfl) hi d hlt] at hch
    exact h.single q hq' hne hh hch
  · obtain ⟨hq', hlt⟩ := hback q hq
    unfold awaited
    rw [finishing_field Scope.callbacks (fun _ _ _ => rfl) hi d hlt]
    exact h.served hs q hq'
  · have hoff' : ¬ Within s.kids j i := fun hw => hoff (hh.within (hT.ended hd) hw)
    rcases hg.kids q j hj with hj | ⟨hn, -⟩
    · have hjn : j < s.nScopes := hT.forest.known q j hj
      refine (h.covered q j (hback q hq).1 hj hoff').beside hT hjn hh.same hh.kids
        (fun m p hm => hg.within_old fun x hx hN => hoff' (hN.1 ▸ hm.trans hx)) fun p hp hst => ?_
      rwa [stopped_finishing hi d (hp.lt hT.forest hjn)] at hst
    · -- the scope of the finally handlers has nothing below it
      have hleaf : ∀ {y}, Within (Scopes.finishing s d i).kids j y → y = j := by
        intro y hy
        cases hy with
        | refl => rfl
        | @down _ x _ hx _ =>
          rcases hg.kids j x hx with hx | ⟨-, hji, -⟩
          · exact absurd (hT.living j (hT.alive_of_kid hx)) (Nat.not_lt.2 hn)
          · exact absurd (hji ▸ hi) (Nat.not_lt.2 hn)
      intro m p hm hp hne _
      rw [hleaf hm] at hp hne
      exact absurd (hleaf hp).symm hne

/-- **Exceptions are routed.** A coroutine fails outside of the scheduler context in a
reachable state where its exception can be routed (`Routable`). Then the handlers called
are those asked on the way from its scope to the root, in order, each told the coroutine;
the scopes passed are cancelled with everything below them, and their subscribers are
notified with the exception; the others are spared; and the catch reports whether a
handler returned or a subscriber marks. -/
theorem exception_routed (c : Env E) (s t : St E) (d : Nat) (e : E) (hr : (lts c).Reachable s)
    (hst : step c s (.finish d (some e) false) = some t)
    (hG : ∀ i, (s.coroutines d).scope = some i → Routable c (s.scopes i).safely s i) :
    ∃ i u ok r, (s.coroutines d).scope = some i ∧
      catch_ c false (s.scopes i).safely (some (.coroutine d)) (i + 1) (finishing s d i) i none e = (u, ok) ∧
      t = leave (notifyCoroutineFinished c u i d) d ∧
      Routed c (finishing s d i) (.coroutine d) s.calls.length i false e r ∧
      u.calls = s.calls ++ r.calls ∧ ok = r.handled ∧
      (∀ q x, (q, x) ∈ r.passed → (u.scopes q).cancelled = true ∧
        (∀ p, Within (finishing s d i).kids q p → stopped u p = true) ∧
        ∀ cb ∈ (s.scopes q).callbacks, Event.notified q cb (some x) ∈ u.log) ∧
      ∀ p, p < s.nScopes → (∀ q x, (q, x) ∈ r.passed → ¬ Within (finishing s d i).kids q p) →
        (u.scopes p).closed = (s.scopes p).closed ∧ (u.scopes p).cancelled = (s.scopes p).cancelled := by
  have hT := (tree_inductive c).reachable s hr
  cases step_move hst with
  | quiet hl => cases hl
  | @finish _ i _ _ hs ha hf =>
    have hends := hT.ends (c := c) hs ha (some e) false
    have hi := hends.lt
    have hle := (grows_finishing (F := Never) hT ha hends.born).nScopes
    have hi₁ := hends.tree.living i hends.alive
    have hsafely : ((finishing s d i).scopes i).safely = (s.scopes i).safely :=
      finishing_field Scope.safely (fun _ _ _ => rfl) hi d hi
    have hcalls : (finishing s d i).calls = s.calls := (finishing_rest s d i).2.1
    obtain ⟨r, hrouted, harr⟩ := arrives (.coroutine d) hends.tree hi₁ ((hG i hs).finishing hT ha hends.born) (i + 1)
      (.start hends.tree _ i) hends.alive none (by simp) (Nat.lt_succ_self i) e
    rw [hcalls] at hrouted
    cases hcatch : catch_ c false (s.scopes i).safely (some (.coroutine d)) (i + 1) (finishing s d i) i
      none e with
    | mk u ok =>
    rw [hcatch] at harr
    refine ⟨i, u, ok, r, hs, hcatch, ?_, hrouted, harr.calls.trans (by rw [hcalls]), harr.report,
      fun q x hq => ?_, fun p hp hnot => ?_⟩
    · rw [finalize_eq]
      unfold thrown
      dsimp only
      rw [hsafely, hcatch]
    · obtain ⟨h₁, h₂, h₃⟩ := harr.passed q x hq
      refine ⟨h₁, h₂, fun cb hcb => h₃ cb ?_⟩
      rw [finishing_field Scope.callbacks (fun _ _ _ => rfl) hi d (hT.lt_of_callback hcb)]
      exact hcb
    · have hin : ¬ Inner (finishing s d i) i i p := by
        rintro (⟨j, hj, hjk, -⟩ | hn)
        · have := hjk.le hends.tree.forest
          have := hends.tree.forest.younger i j hj
          omega
        · exact absurd (Nat.lt_of_lt_of_le hp hle) (Nat.not_lt.2 hn)
      have hsp := harr.spared p (Nat.lt_of_lt_of_le hp hle) hin hnot
      rw [finishing_field Scope.closed (fun _ _ _ => rfl) hi d hp,
        finishing_field Scope.cancelled (fun _ _ _ => rfl) hi d hp] at hsp
      exact hsp

end Fails

/-- A coroutine in a child scope without handlers fails; below its scope there is another,
above it a root with both handlers. -/
theorem exception_routed_once :
    ∃ (s t u : St Nat) (r : Routing Nat), step plain s (.finish 0 (some 3) false) = some t ∧
      (s.scopes 0).childHandler = true ∧ s.kids 0 = [1] ∧ s.kids 1 = [2] ∧
      Routed plain (finishing s 0 1) (.coroutine 0) s.calls.length 1 false 3 r ∧
      u.calls = s.calls ++ r.calls ∧
      ∀ q x, (q, x) ∈ r.passed → (u.scopes q).cancelled = true := by
  obtain ⟨s, hr, ⟨hstep, hs, hch, hsafe⟩, ⟨h0, h1⟩, hk0, hk1, hk2⟩ := LTS.exists_from (f := step plain) start
    [.newScope none true, .configure 0 true true false false, .newScope (some 0) true,
      .newScope (some 1) true, .spawn 1]
    (P := fun s => ((step plain s (.finish 0 (some 3) false)).isSome = true ∧
      (s.coroutines 0).scope = some 1 ∧ (s.scopes 0).childHandler = true ∧
      (s.scopes 1).safely = false) ∧ ((s.scopes 0).handled = false ∧ (s.scopes 1).handled = false) ∧
      s.kids 0 = [1] ∧ s.kids 1 = [2] ∧ s.kids 2 = []) (by decide +kernel)
  obtain ⟨t, hst⟩ := Option.isSome_iff_exists.1 hstep
  have hT := (tree_inductive plain).reachable s hr
  have hway : ∀ {q}, Within s.kids q 1 → q = 0 ∨ q = 1 := fun hw => by
    have := hw.le hT.forest
    omega
  have hleaf : ∀ {y}, Within s.kids 2 y → y = 2 := by
    intro y hy
    cases hy with
    | refl => rfl
    | down hx _ =>
      rw [hk2] at hx
      cases hx
  have hG : Routable plain false s 1 :=
    { fresh := fun q hq => by rcases hway hq with rfl | rfl <;> assumption
      single := fun _ _ _ _ _ _ _ => rfl
      served := fun h => absurd h Bool.false_ne_true
      covered := fun q j hq hj hoff => by
        rcases hway hq with rfl | rfl
        · rw [hk0, List.mem_singleton] at hj
          exact absurd (hj ▸ .refl _) hoff
        · rw [hk1, List.mem_singleton] at hj
          subst hj
          intro m p hm hmp hne _
          rw [hleaf hm] at hmp hne
          exact absurd (hleaf hmp).symm hne }
  obtain ⟨i, u, ok, r, hi, -, -, hrouted, hcalls, -, hpassed, -⟩ :=
    exception_routed plain s t 0 3 hr hst (fun i hi => by grind)
  obtain rfl : 1 = i := Option.some.inj (hs.symm.trans hi)
  exact ⟨s, t, u, r, hst, hch, hk0, hk1, hrouted, hcalls, fun q x hq => (hpassed q x hq).1⟩

/-- **Counterexample.** A subscriber marks the exception of the first coroutine and leaves;
the exception of the second is reported as handled, with nobody there to handle it. -/
theorem stale_mark_absorbs :
    ∃ s : St Nat, (lts plain).Reachable s ∧ (s.coroutines 1).scope = some 0 ∧
      (s.coroutines 1).finished = false ∧ (s.scopes 0).callbacks = [] ∧
      (s.scopes 0).handler = false ∧ (s.scopes 0).childHandler = false ∧ (s.scopes 0).parent = none ∧
      (catch_ plain false false (some (.coroutine 1)) 1 (finishing s 1 0) 0 none 4).2 = true := by
  exact LTS.exists_from (f := step plain) start
    [.newScope none true, .subscribe 0 true, .spawn 0, .spawn 0, .finish 0 (some 3) false,
      .unsubscribe 0 true] (by decide +kernel)

end PhpAsync.L2.Scopes
