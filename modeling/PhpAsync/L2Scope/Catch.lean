import PhpAsync.L2Scope.Operations

/-!
# Growth, and the way of an exception

* `Evolves.unfinished`: an operation that starts no finally handlers below a scope adds
  no coroutine there.
* `aside_keeps`: at the turn of a child its subtree is as it was.
* `catch_rule`: the way of an exception through the scopes, as a rule for what holds on
  the way up and at its end.
-/
namespace PhpAsync.L2.Scopes

open PhpAsync.Core

variable {E : Type}

/-! ## Growth -/

variable {i j p : Nat} {s t : St E}

section Growth

variable {F L : Nat → Prop} {s t : St E} {i : Nat}

theorem Evolves.unfinished (h : Evolves F L s t) (hs : Tree s) (hi : i < s.nScopes)
    (hf : ∀ p, Within s.kids i p → L p → (s.scopes p).finallyHandlers = []) :
    unfinished t i ⊆ unfinished s i := by
  refine fun d hd => (h.mem_unfinished hs (fun j hw hn => Nat.not_lt.2 hn ?_) hd).1
  exact (h.within_old (fun p hp hN => hN.2 (hf p hp hN.1)) hw).lt hs.forest hi

/-- Nothing new at all. -/
theorem Evolves.nScopes_eq (h : Evolves F L s t)
    (hf : ∀ p, L p → (s.scopes p).finallyHandlers = []) : t.nScopes = s.nScopes :=
  h.fresh.resolve_right fun ⟨p, hL, hne⟩ => hne (hf p hL)

theorem Evolves.never (h : Evolves F L s t) (hf : ∀ p, L p → (s.scopes p).finallyHandlers = []) :
    Grows F Never Never s t :=
  have hn := h.nScopes_eq hf
  { h with
    fresh := .inl hn
    kids := fun p j hj => (h.kids p j hj).imp_right fun hN => ⟨hN.1, hN.2.2 (hf p hN.2.1)⟩
    parent := fun j p hp => (h.parent j p hp).imp_right fun hN => ⟨hN.1, hN.2.2 (hf p hN.2.1)⟩
    members := fun i d hd => (h.members i d hd).imp_right fun hM =>
      absurd (h.tree.living i (h.tree.alive_of_member hd)) (Nat.not_lt.2 (hn ▸ hM.1)) }

end Growth

theorem Tree.lt_of_stopped (h : Tree s) (hi : stopped s i = true) : i < s.nScopes := by
  by_contra hlt
  have hb := h.beyond (Nat.le_of_not_lt hlt)
  unfold stopped at hi
  rw [hb.closed, hb.cancelled] at hi
  cases hi

/-! ## Subtrees in the course of an operation -/

section Subtree

variable {c : Env E} {safely : Bool} {s : St E} {i : Nat}

/-- No scope at or below `i` has finally handlers. -/
def Bare (s : St E) (i : Nat) : Prop := ∀ p, Within s.kids i p → (s.scopes p).finallyHandlers = []

theorem Bare.dom (h : Bare s i) (hT : Tree s) (hp : Dom s i p) : (s.scopes p).finallyHandlers = [] := by
  rcases hp with hw | hn
  · exact h p hw
  · exact (hT.beyond hn).finallyHandlers

/-- The turn of the child `j`: its subtree is as it was. -/
theorem aside_keeps (hT : Tree s) (hj : j ∈ s.kids i) {u : St E} (hu : Others c safely s i j s u) :
    (∀ p, Within u.kids j p → Within s.kids j p) ∧
    (∀ p, Within s.kids j p → stopped u p = true → stopped s p = true) ∧
    (∀ p, Within s.kids j p → unfinished u p ⊆ unfinished s p) := by
  have hev := hu.evolves hT
  refine ⟨fun p hp => hev.within_old (fun q hq hN => hN.1.2 hq) hp,
    fun p hp hst => (hev.stopped hst).resolve_right fun hF => hF.2 hp,
    fun p hp => hev.unfinished hT (hp.lt hT.forest (hT.forest.known i j hj)) fun q hq hA => ?_⟩
  exact absurd (hp.trans hq) hA.2

end Subtree

/-! ## Conditions on the scopes above and below -/

/-- At `i` and everywhere above it. -/
def Above (s : St E) (i : Nat) (P : Nat → Prop) : Prop := ∀ p < s.nScopes, i ∈ s.below p → P p

/-- At `i` and everywhere below it. -/
def Below (s : St E) (i : Nat) (P : Nat → Prop) : Prop := ∀ p ∈ s.below i, P p

instance (s : St E) (i : Nat) (P : Nat → Prop) [DecidablePred P] : Decidable (Above s i P) :=
  Nat.decidableBallLT s.nScopes fun p _ => i ∈ s.below p → P p

instance (s : St E) (i : Nat) (P : Nat → Prop) [DecidablePred P] : Decidable (Below s i P) :=
  List.decidableBAll P (s.below i)

def hasHandler (s : St E) (i : Nat) : Bool := (s.scopes i).handler || (s.scopes i).childHandler

theorem Above.within (hT : Tree s) {P : Nat → Prop} (h : Above s i P) (hi : i < s.nScopes) (hp : Within s.kids p i) :
    P p :=
  h p (Nat.lt_of_le_of_lt (hp.le hT.forest) hi) ((mem_belowScope hT).2 hp)

theorem Below.within (hT : Tree s) {P : Nat → Prop} (h : Below s i P) (hp : Within s.kids i p) :
    P p := h p ((mem_belowScope hT).2 hp)

/-! ## Exceptions -/

section Catch

variable {c : Env E} {scheduler safely : Bool} {told : Option Owner}

/-- Handlers were called. -/
def heard (s : St E) (l : List (Call E)) : St E := { s with calls := s.calls ++ l }

/-- A scope that does not absorb the exception. -/
def pass (c : Env E) (safely : Bool) (s : St E) (i : Nat) (e : E) : St E :=
  stop c safely (fun t j => cancel c safely (s.nScopes + 1) t j none) s i e

theorem acts_pass (safely : Bool) (hT : Tree s) (ha : (s.scopes i).alive = true) (e : E) :
    Cancels c safely s i s (pass c safely s i e) :=
  acts_stop safely hT ha e (turns_cancel safely _ none)

/-- Who may be called where handlers are, and told what. -/
def Asked (scheduler : Bool) (told : Option Owner) (x : Scope) (l : List (Call E)) : Prop :=
  ∀ y ∈ l, scheduler = false ∧ told = some y.told ∧ (x.handler || x.childHandler) = true

/-- What `try_to_handle_exception` can do: nothing, a call, or a new coroutine. -/
theorem tryToHandleException_cases (c : Env E) (scheduler : Bool) (told : Option Owner) (s : St E)
    (i : Nat) (origin : Option Nat) (e : E) :
    (∃ l v, tryToHandleException c scheduler told s i origin e = (heard s l, v) ∧
      Asked scheduler told (s.scopes i) l) ∨
    (tryToHandleException c scheduler told s i origin e = (spawnAndThrow s (origin.getD i), .handled) ∧
      (scheduler = true ∨ told = none) ∧ ((s.scopes i).handler || (s.scopes i).childHandler) = true) := by
  have hnone : heard s [] = s := by
    unfold heard
    rw [List.append_nil]
  unfold tryToHandleException
  split
  · exact .inl ⟨[], _, by rw [hnone], by simp [Asked]⟩
  · rename_i hh
    have hh' : ((s.scopes i).handler || (s.scopes i).childHandler) = true := by
      revert hh
      cases (s.scopes i).handler <;> simp
    split
    · rename_i o
      split
      · exact .inl ⟨[⟨i, true, o, e⟩], _, rfl, by simpa [Asked] using hh'⟩
      · split
        · exact .inl ⟨[⟨i, false, o, e⟩], _, rfl, by simpa [Asked] using hh'⟩
        · exact .inl ⟨[], _, by rw [hnone], by simp [Asked]⟩
    · rename_i hno
      refine .inr ⟨rfl, ?_, hh'⟩
      cases scheduler with
      | true => exact .inl rfl
      | false =>
        cases told with
        | none => exact .inr rfl
        | some o => exact absurd rfl (hno o rfl)

theorem Tree.heard (h : Tree s) (l : List (Call E)) : Tree (heard s l) :=
  h.congr rfl rfl rfl rfl

/-- What a scope hands on: the exception that came, or merged with the one thrown here. -/
def onward (c : Env E) (e : E) (thrown : Option E) : E := thrown.elim e (c.merge e)

/-- A scope that does not absorb the exception is stopped, and its parent is asked. -/
theorem catch_passed {l : List (Call E)} {origin : Option Nat} {e x : E} {thrown : Option E}
    (heq : tryToHandleException c scheduler told s i origin e = (heard s l, .passed thrown))
    (hx : onward c e thrown = x) (fuel : Nat) :
    catch_ c scheduler safely told (fuel + 1) s i origin e =
      if ((pass c safely (heard s l) i x).scopes i).handled = true then (pass c safely (heard s l) i x, true)
      else
        match ((pass c safely (heard s l) i x).scopes i).parent with
        | some p => catch_ c scheduler safely told fuel (pass c safely (heard s l) i x) p (some i) x
        | none => (pass c safely (heard s l) i x, false) := by
  subst hx
  rw [catch_, heq]
  cases thrown <;> rfl

/-- **The way of an exception.** `P u i` holds before the scope `i` is asked, `F` at the
end. -/
theorem catch_rule {P : St E → Nat → Prop} {F : St E → Prop}
    (hhear : ∀ u i l, Asked scheduler told (u.scopes i) l → P u i → P (heard u l) i) (habs : ∀ u i, P u i → F u)
    (hspawn : ∀ u i j, Tree u → (u.scopes j).alive = true → (scheduler = true ∨ told = none) →
      ((u.scopes i).handler || (u.scopes i).childHandler) = true → P u i → F (spawnAndThrow u j))
    (hend : ∀ u i e, Tree u → (u.scopes i).alive = true → P u i → F (pass c safely u i e))
    (hup : ∀ u i e p, Tree u → (u.scopes i).alive = true → (u.scopes i).parent = some p → P u i →
      P (pass c safely u i e) p) (fuel : Nat) {origin : Option Nat} (hT : Tree s) (ha : (s.scopes i).alive = true)
    (ho : ∀ j, origin = some j → (s.scopes j).alive = true) (e : E) (hP : P s i) :
    F (catch_ c scheduler safely told fuel s i origin e).1 := by
  induction fuel generalizing s i origin e with
  | zero => exact habs s i hP
  | succ fuel ih =>
    rcases tryToHandleException_cases c scheduler told s i origin e with
      ⟨l, v, heq, hl⟩ | ⟨heq, hwhy, hh⟩
    · have hP' := hhear s i l hl hP
      have hT' := hT.heard l
      cases v with
      | handled =>
        rw [catch_, heq]
        exact habs _ i hP'
      | passed thrown =>
        rw [catch_passed heq rfl]
        generalize onward c e thrown = e'
        have hacts := acts_pass (c := c) safely hT' ha e'
        have hsame := (hacts.holds hT').same i (hT'.living i ha)
        split
        · exact hend _ i e' hT' ha hP'
        · split
          · rename_i p hp
            have hT₂ := hacts.tree hT'
            refine ih hT₂ (hT₂.parent_alive hp) (fun j hj => ?_) e' (hup _ i e' p hT' ha ?_ hP')
            · cases hj
              rw [hsame.alive]
              exact ha
            · rw [← hsame.parent]
              exact hp
          · exact hend _ i e' hT' ha hP'
    · rw [catch_, heq]
      refine hspawn s i (origin.getD i) hT ?_ hwhy hh hP
      cases origin with
      | none => exact ha
      | some j => exact ho j rfl

/-- The scopes that an exception thrown in `k` can reach. -/
def Tribe (s : St E) (k x : Nat) : Prop :=
  (∃ p, Within s.kids p k ∧ Within s.kids p x) ∨ s.nScopes ≤ x

/-- On its way up from `k` in the state `s` the exception has come to `i`. -/
structure Rises (s : St E) (k : Nat) (u : St E) (i : Nat) : Prop where
  evolves : Evolves (Tribe s k) (Tribe s k) s u
  same : ∀ j, j < s.nScopes → (s.scopes j).Same (u.scopes j)
  path : Within s.kids i k

namespace Rises

variable {s u : St E} {k i : Nat}

theorem refl (hT : Tree s) (k : Nat) : Rises s k s k := ⟨.refl hT, fun _ _ => .refl _, .refl k⟩

theorem heard (h : Rises s k u i) (l : List (Call E)) : Rises s k (heard u l) i :=
  ⟨h.evolves.rest _ _ _ _, h.same, h.path⟩

theorem lt (h : Rises s k u i) (hs : Tree s) (hk : k < s.nScopes) : i < s.nScopes :=
  Nat.lt_of_le_of_lt (h.path.le hs.forest) hk

theorem tribe (h : Rises s k u i) {x : Nat} (hx : Dom u i x) : Tribe s k x :=
  (dom_later h.evolves hx).imp (fun hw => ⟨i, h.path, hw⟩) id

/-- Whoever has handlers had them before. -/
theorem hasHandler (h : Rises s k u i) (hs : Tree s) (hk : k < s.nScopes) :
    ((u.scopes i).handler || (u.scopes i).childHandler) = hasHandler s i := by
  have hsame := h.same i (h.lt hs hk)
  rw [hsame.handler, hsame.childHandler, Scopes.hasHandler]

theorem pass (safely : Bool) (h : Rises s k u i) (ha : (u.scopes i).alive = true) (e : E) :
    Rises s k (pass c safely u i e) i where
  evolves := h.evolves.trans (((acts_pass safely h.evolves.tree ha e).evolves h.evolves.tree).mono
    (fun _ hx => h.tribe hx) fun _ hx => h.tribe hx)
  same j hj := (h.same j hj).trans
    (((acts_pass safely h.evolves.tree ha e).holds h.evolves.tree).same j (Nat.lt_of_lt_of_le hj h.evolves.nScopes))
  path := h.path

theorem next (safely : Bool) (h : Rises s k u i) (hs : Tree s) (hk : k < s.nScopes) (ha : (u.scopes i).alive = true)
    (hp : (u.scopes i).parent = some p) (e : E) : Rises s k (Scopes.pass c safely u i e) p := by
  refine { h.pass safely ha e with path := .down (hs.linked i p ?_) h.path }
  rw [← (h.same i (h.lt hs hk)).parent]
  exact hp

end Rises

/-- **The way of an exception breaks nothing.** -/
theorem grows_catch (h : Tree s) (ha : (s.scopes i).alive = true) (scheduler safely : Bool) (told : Option Owner)
    (fuel : Nat) (e : E) : Grows Any Any Any s (catch_ c scheduler safely told fuel s i none e).1 := by
  have hpass : ∀ u i e, (u.scopes i).alive = true → Grows Any Any Any s u →
      Grows Any Any Any s (pass c safely u i e) := fun u i e hi hu =>
    hu.trans ((acts_pass safely hu.tree hi e).evolves hu.tree).any
  exact catch_rule (P := fun u _ => Grows Any Any Any s u) (F := fun u => Grows Any Any Any s u)
    (fun _ _ _ _ hu => hu.rest _ _ _ _) (fun _ _ hu => hu) (fun _ _ _ _ hj _ _ hu => hu.trans (.spawnAndThrow hu.tree hj))
    (fun u i e _ hi hu => hpass u i e hi hu) (fun u i e _ _ hi _ hu => hpass u i e hi hu) fuel h ha
    (fun _ hj => by cases hj) e (.refl h)

end Catch

end PhpAsync.L2.Scopes
