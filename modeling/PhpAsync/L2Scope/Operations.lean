import PhpAsync.L2Scope.Effects

/-!
# The operations as sequences of actions

Each operation of scope.c is a sequence of actions (`acts_*`). For an operation on the
subtree of `k` in the state `s`, flags, finally handlers and removals stay inside the
subtree or among what is new (`Dom s k`); callbacks are called inside the subtree only,
but for the safe mode, which calls them without an exception also above it (`Rel`,
`Last`).

* `acts_cancel`, `acts_stop`: cancellation.
* `acts_dispose`, `acts_tryToDispose`: disposal.
-/
namespace PhpAsync.L2.Scopes

open PhpAsync.Core

variable {E : Type}
variable {Q : Nat → Prop} {cb : Callback} {d i j k : Nat} {e : Option E} {s t : St E} {safely : Bool}

section Operations

variable {c : Env E} {F L K : Nat → Prop} {R : Nat → Callback → Option E → Prop}

theorem acts_notify (s : St E) (i : Nat) (e : Option E)
    (h : ∀ cb ∈ (s.scopes i).callbacks, R i cb e) : Acts c F L K R s (notify c s i e) :=
  List.foldlRecOn _ _ .refl fun _ ht cb hcb => ht.tail (.call (h cb hcb))

/-- The scopes that a notification on its way up may pass. -/
structure Upward (Q : Nat → Prop) (R : Nat → Callback → Option E → Prop) (s : St E) : Prop where
  up : ∀ j p, Q j → (s.scopes j).parent = some p → Q p
  call : ∀ j, Q j → ∀ cb ∈ (s.scopes j).callbacks, R j cb none

theorem Upward.soft (h : Upward Q R s) (hs : Soft s t) : Upward Q R t where
  up j p hj hp := h.up j p hj (by rw [← (hs.scope j).parent]; exact hp)
  call j hj cb hcb := h.call j hj cb ((hs.scope j).callbacks hcb)

/-- No restriction on who is called. -/
theorem upward_any (s : St E) : Upward (fun _ => True) (fun _ _ _ => True) s :=
  ⟨fun _ _ _ _ => trivial, fun _ _ _ _ => trivial⟩

theorem soft_notify (c : Env E) (s : St E) (i : Nat) (e : Option E) : Soft s (notify c s i e) :=
  (acts_notify (R := fun _ _ _ => True) s i e fun _ _ => trivial).soft

theorem acts_check (withZombies : Bool) (fuel : Nat) (s : St E) (i : Nat) (h : Upward Q R s) (hi : Q i) :
    Acts c F L K R s (checkCompletionAndNotify c withZombies fuel s i) := by
  induction fuel generalizing s i with
  | zero => exact .refl
  | succ fuel ih =>
    unfold checkCompletionAndNotify
    split
    · have hn : Acts c F L K R s (notify c s i none) := acts_notify s i none (h.call i hi)
      have hs := soft_notify c s i none
      split
      · rename_i p hp
        exact hn.trans (ih _ p (h.soft hs) ((h.soft hs).up i p hi hp))
      · exact hn
    · exact .refl

theorem soft_check (withZombies : Bool) (fuel : Nat) (s : St E) (i : Nat) :
    Soft s (checkCompletionAndNotify c withZombies fuel s i) :=
  (acts_check withZombies fuel s i (upward_any s) trivial).soft

theorem Mild.setCoroutine {x : Coroutine} (hd : d < s.nCoroutines) (h : (s.coroutines d).Like x) :
    Mild s (s.setCoroutine d x) :=
  ⟨.setCoroutine hd h, rfl, fun _ => rfl, fun _ => rfl⟩

theorem Mild.setScope {x : Scope} (h : (s.scopes i).Like x) (h₁ : x.handled = (s.scopes i).handled)
    (h₂ : x.callbacks = (s.scopes i).callbacks) : Mild s (s.setScope i x) :=
  ⟨.setScope h, rfl, fun j => setScope_field Scope.handled h₁ j,
    fun j => setScope_field Scope.callbacks h₂ j⟩

theorem countZombie_like (x : Scope) : x.Like (countZombie x) := by
  unfold countZombie
  split
  · refine ⟨rfl, rfl, rfl, rfl, rfl, rfl, rfl, rfl, rfl, List.Subset.refl _, ?_⟩
    dsimp only
    omega
  · exact .refl x

theorem countZombie_handled (x : Scope) : (countZombie x).handled = x.handled := by
  unfold countZombie
  split <;> rfl

theorem countZombie_callbacks (x : Scope) : (countZombie x).callbacks = x.callbacks := by
  unfold countZombie
  split <;> rfl

/-- The coroutine is in a scope, so it is there. -/
theorem Tree.born (h : Tree s) (hd : (s.coroutines d).scope = some i) : d < s.nCoroutines := by
  by_contra hlt
  rw [h.unborn d (Nat.le_of_not_lt hlt)] at hd
  cases hd

theorem mild_zombie (hd : d < s.nCoroutines) :
    Mild s ((s.setCoroutine d { s.coroutines d with zombie := true }).setScope i
      (countZombie (s.scopes i))) := by
  have h₁ : Mild s (s.setCoroutine d { s.coroutines d with zombie := true }) := by
    refine .setCoroutine hd ⟨rfl, rfl, fun _ => ?_⟩
    simp [Coroutine.touched]
  have h₂ : Mild (s.setCoroutine d { s.coroutines d with zombie := true })
      ((s.setCoroutine d { s.coroutines d with zombie := true }).setScope i
        (countZombie (s.scopes i))) :=
    .setScope (countZombie_like _) (countZombie_handled _) (countZombie_callbacks _)
  exact ⟨h₁.toSoft.trans h₂.toSoft, h₂.log.trans h₁.log, fun j => (h₂.handled j).trans (h₁.handled j),
    fun j => (h₂.callbacks j).trans (h₁.callbacks j)⟩

theorem acts_markZombie (hd : d < s.nCoroutines) (h : Upward Q R s) (hQ : ∀ i, (s.coroutines d).scope = some i → Q i) :
    Acts c F L K R s (markZombie c s d) := by
  unfold markZombie
  split
  · rename_i i _ hi
    have hm : Mild s _ := mild_zombie (i := i) hd
    exact .head (.mild hm) (acts_check false (i + 1) _ i (h.soft hm.toSoft) (hQ i hi))
  · exact .refl

theorem soft_markZombie (hd : d < s.nCoroutines) : Soft s (markZombie c s d) :=
  (acts_markZombie hd (upward_any s) fun _ _ => trivial).soft

theorem mild_cancelled (hd : d < s.nCoroutines) : Mild s (s.setCoroutine d { s.coroutines d with cancelled := true }) :=
  .setCoroutine hd ⟨rfl, rfl, fun _ => by simp [Coroutine.touched]⟩

theorem mild_deferred (hd : d < s.nCoroutines) : Mild s (s.setCoroutine d { s.coroutines d with deferred := true }) :=
  .setCoroutine hd ⟨rfl, rfl, fun _ => by simp [Coroutine.touched]⟩

theorem acts_cancelCoroutine (safely : Bool) (hd : d < s.nCoroutines) (h : safely = true → Upward Q R s)
    (hQ : ∀ i, (s.coroutines d).scope = some i → Q i) : Acts c F L K R s (cancelCoroutine c safely s d) := by
  unfold cancelCoroutine
  dsimp only
  split
  · exact .refl
  · split
    · exact .single (.mild (mild_cancelled hd))
    · split
      · exact .single (.mild (mild_deferred hd))
      · have hm := mild_cancelled hd
        split
        · rename_i hsafe
          have hup := h (by simpa using (Bool.and_eq_true_iff.1 hsafe).2)
          refine .head (.mild hm) (acts_markZombie (Q := Q) hd (hup.soft hm.toSoft) fun i hi => hQ i ?_)
          rw [(hm.coroutine d).scope] at hi
          exact hi
        · exact .single (.mild hm)

theorem soft_cancelCoroutine (safely : Bool) (hd : d < s.nCoroutines) : Soft s (cancelCoroutine c safely s d) :=
  (acts_cancelCoroutine safely hd (fun _ => upward_any s) fun _ _ => trivial).soft

/-- All coroutines of one scope. -/
theorem acts_cancelCoroutines (safely : Bool) (hT : Tree s) (h : safely = true → Upward Q R s) (hi : Q i) :
    Acts c F L K R s (cancelCoroutines c safely s i) := by
  suffices hboth : Soft s (cancelCoroutines c safely s i) ∧
      Acts c F L K R s (cancelCoroutines c safely s i) from hboth.2
  refine List.foldlRecOn (motive := fun t => Soft s t ∧ Acts c F L K R s t) _ _ ⟨.refl s, .refl⟩
    fun t ht d hd => ?_
  obtain ⟨ht, hacts⟩ := ht
  have hlt : d < t.nCoroutines := by
    rw [ht.nCoroutines]
    exact hT.known hd
  refine ⟨ht.trans (soft_cancelCoroutine safely hlt),
    hacts.trans (acts_cancelCoroutine (Q := Q) safely hlt (fun hs => (h hs).soft ht) fun j hj => ?_)⟩
  rw [(ht.coroutine d).scope, hT.home i d hd] at hj
  cases hj
  exact hi

theorem soft_cancelCoroutines (safely : Bool) (hT : Tree s) (i : Nat) : Soft s (cancelCoroutines c safely s i) :=
  (acts_cancelCoroutines safely hT (fun _ => upward_any s) trivial).soft

/-! ## Subtrees -/

/-- Inside the subtree of `k`, or new. -/
def Dom (s : St E) (k i : Nat) : Prop := Within s.kids k i ∨ s.nScopes ≤ i

/-- Cancellation: a subscriber from before, inside the subtree of `k` with an exception;
in the safe mode also without one, and then also above. -/
def Rel (safely : Bool) (s : St E) (k i : Nat) (cb : Callback) (e : Option E) : Prop :=
  cb ∈ (s.scopes i).callbacks ∧
    ((Within s.kids k i ∧ (safely = true ∨ e ≠ none)) ∨
      (safely = true ∧ e = none ∧ Within s.kids i k))

/-- Disposal: a subscriber from before, inside the subtree of `k`, without an exception. -/
def Last (s : St E) (k i : Nat) (cb : Callback) (e : Option E) : Prop :=
  cb ∈ (s.scopes i).callbacks ∧ Within s.kids k i ∧ e = none

/-- Who has subscribers was there before. -/
theorem Tree.lt_of_callback (h : Tree s) (hcb : cb ∈ (s.scopes i).callbacks) : i < s.nScopes := by
  by_contra hi
  rw [(h.beyond (Nat.le_of_not_lt hi)).callbacks] at hcb
  cases hcb

theorem dom_later {N M : Nat → Prop} (h : Grows F N M s t) (hi : Dom t k i) : Dom s k i := by
  by_cases hlt : i < s.nScopes
  · exact hi.imp (h.within · hlt) (Nat.le_trans h.nScopes)
  · exact .inr (Nat.le_of_not_lt hlt)

theorem dom_kid (hj : j ∈ s.kids k) (hi : Dom s j i) : Dom s k i :=
  hi.imp (.down hj) id

theorem rel_later (hs : Tree s) (h : Evolves F L s t) (hk : k < s.nScopes) (hi : Rel safely t k i cb e) :
    Rel safely s k i cb e := by
  obtain ⟨hcb, hw⟩ := hi
  have hcb' := h.callbacks i hcb
  refine ⟨hcb', ?_⟩
  rcases hw with ⟨hw, he⟩ | ⟨hs', he, hw⟩
  · exact .inl ⟨h.within hw (hs.lt_of_callback hcb'), he⟩
  · exact .inr ⟨hs', he, h.within hw hk⟩

theorem rel_kid (hs : Tree s) (hj : j ∈ s.kids k) (hi : Rel safely s j i cb e) : Rel safely s k i cb e := by
  obtain ⟨hcb, hw⟩ := hi
  refine ⟨hcb, ?_⟩
  rcases hw with ⟨hw, he⟩ | ⟨hs', he, hw⟩
  · exact .inl ⟨.down hj hw, he⟩
  · rcases hw.last with rfl | ⟨p, hp, hjp⟩
    · exact .inl ⟨.child hj, .inl hs'⟩
    · rw [← hs.forest.unique k p j hj hjp] at hp
      exact .inr ⟨hs', he, hp⟩

/-- The way up from the subtree of `k`. -/
theorem upward_of_dom (hs : Tree s) (h : Evolves (Dom s k) (Dom s k) s t) :
    Upward (fun j => Dom s k j ∨ Within s.kids j k) (Rel true s k) t where
  up j p hj hp := by
    rcases h.parent j p hp with hp | ⟨-, hL, -⟩
    · have hlink := hs.linked j p hp
      rcases hj with (hw | hn) | hw
      · rcases hw.last with rfl | ⟨q, hq, hjq⟩
        · exact .inr (.child hlink)
        · rw [hs.forest.unique p q j hlink hjq]
          exact .inl (.inl hq)
      · rw [(hs.beyond hn).parent] at hp
        cases hp
      · exact .inr (.down hlink hw)
    · exact .inl hL
  call j hj cb hcb := by
    have hcb' := h.callbacks j hcb
    refine ⟨hcb', ?_⟩
    rcases hj with (hw | hn) | hw
    · exact .inl ⟨hw, .inl rfl⟩
    · exact absurd (hs.lt_of_callback hcb') (Nat.not_lt.2 hn)
    · exact .inr ⟨rfl, rfl, hw⟩

/-! ## Cancellation -/

/-- A cancellation of the subtree that `k` has in `s`. -/
abbrev Cancels (c : Env E) (safely : Bool) (s : St E) (k : Nat) : St E → St E → Prop :=
  Acts c (Dom s k) (Dom s k) Never (Rel safely s k)

/-- The children are cancelled by `kid`. -/
def Turns (c : Env E) (safely : Bool) (kid : St E → Nat → St E) : Prop :=
  ∀ t j, Tree t → (t.scopes j).alive = true → Cancels c safely t j t (kid t j)

/-- In the subtree of `k`, but beside that of `j`. -/
def Aside (s : St E) (k j x : Nat) : Prop := Dom s k x ∧ ¬ Within s.kids j x

/-- What happens before the turn of the child `j`. -/
abbrev Others (c : Env E) (safely : Bool) (s : St E) (k j : Nat) : St E → St E → Prop :=
  Acts c (Aside s k j) (Aside s k j) Never (Rel safely s k)

/-- A child that was there lives. -/
theorem Acts.kid_alive (h : Acts c F L Never R s t) (hT : Tree s) (hj : j ∈ s.kids k) : (t.scopes j).alive = true := by
  rw [((h.holds hT).same j (hT.forest.known k j hj)).alive]
  exact hT.kin k j hj

/-- **The loop over the children.** Before the turn of a child everything has happened
beside its subtree. `P` is kept by every turn; `Q j` holds behind the turn of `j`, and
nothing in the subtree of `k` breaks it. -/
theorem cancelChildren_rule {kid : St E → Nat → St E} (hT : Tree s) (ha : (s.scopes k).alive = true)
    (hkid : Turns c safely kid) {P : St E → Prop} {Q : Nat → St E → Prop} (h0 : P (setCancelled s k))
    (hturn : ∀ j ∈ s.kids k, ∀ u, Others c safely s k j s u → P u → P (kid u j) ∧ Q j (kid u j))
    (hkeep : ∀ j ∈ s.kids k, ∀ u v, Cancels c safely s k s u → Cancels c safely s k u v → Q j u → Q j v) :
    Cancels c safely s k s (cancelChildren kid (setCancelled s k) k) ∧
      P (cancelChildren kid (setCancelled s k) k) ∧
      ∀ j ∈ s.kids k, Q j (cancelChildren kid (setCancelled s k) k) := by
  have hk₁ : ((setCancelled s k).scopes k).scopes = s.kids k :=
    congrFun (setScope_kids (x := { s.scopes k with cancelled := true }) rfl) k
  -- `l` is what is left of the vector
  have key : ∀ (l : List Nat) (u : St E), l.Nodup → l ⊆ s.kids k → Cancels c safely s k s u →
      (∀ j ∈ l, Others c safely s k j s u) → P u → (∀ j ∈ s.kids k, j ∉ l → Q j u) →
      Cancels c safely s k s (l.foldl kid u) ∧ P (l.foldl kid u) ∧ ∀ j ∈ s.kids k, Q j (l.foldl kid u) := by
    intro l
    induction l with
    | nil => exact fun u _ _ hu _ hP hQ => ⟨hu, hP, fun j hj => hQ j hj List.not_mem_nil⟩
    | cons j l ih =>
      intro u hnd hl hu hbeside hP hQ
      have hj : j ∈ s.kids k := hl List.mem_cons_self
      have hjl := List.nodup_cons.1 hnd
      have hev := hu.evolves hT
      have hacts := hkid u j hev.tree (hu.kid_alive hT hj)
      have hrel : ∀ i cb e, Rel safely u j i cb e → Rel safely s k i cb e := fun _ _ _ h =>
        rel_kid hT hj (rel_later hT hev (hT.forest.known k j hj) h)
      have hdom : ∀ x, Dom u j x → Dom s k x := fun x h => dom_kid hj (dom_later hev h)
      have hacts' : Cancels c safely s k u (kid u j) := hacts.mono hdom hdom (fun _ h => h) hrel
      obtain ⟨hP', hQ'⟩ := hturn j hj u (hbeside j List.mem_cons_self) hP
      refine ih (kid u j) hjl.2 (List.subset_of_cons_subset hl) (hu.trans hacts') ?_ hP' ?_
      · intro j' hj'
        have hne : j ≠ j' := by
          rintro rfl
          exact hjl.1 hj'
        have hj'k : j' ∈ s.kids k := hl (List.mem_cons_of_mem _ hj')
        have haside : ∀ x, Dom u j x → Aside s k j' x := by
          refine fun x h => ⟨hdom x h, fun hw => ?_⟩
          rcases dom_later hev h with hx | hx
          · exact hT.forest.disjoint hj hj'k hne hx hw
          · exact absurd (hw.lt hT.forest (hT.forest.known k j' hj'k)) (Nat.not_lt.2 hx)
        exact (hbeside j' (List.mem_cons_of_mem _ hj')).trans
          (hacts.mono haside haside (fun _ h => h) hrel)
      · grind
  have hflag : ∀ L : Nat → Prop, L k → Acts c L L Never (Rel safely s k) s (setCancelled s k) :=
    fun L hL => .single (.flag hL ha)
  unfold cancelChildren
  rw [hk₁]
  refine key _ _ (hT.forest.nodup k) (List.Subset.refl _) (hflag _ (.inl (.refl k))) (fun j hj => ?_) h0
    fun j hj hnot => absurd hj hnot
  refine hflag _ ⟨.inl (.refl k), fun hw => ?_⟩
  have := hw.le hT.forest
  have := hT.forest.younger k j hj
  omega

theorem acts_stop (safely : Bool) {kid : St E → Nat → St E} (hT : Tree s) (ha : (s.scopes k).alive = true) (e : E)
    (hkid : Turns c safely kid) : Cancels c safely s k s (stop c safely kid s k e) := by
  have h₂ : Cancels c safely s k s (cancelChildren kid (setCancelled s k) k) :=
    (cancelChildren_rule (P := fun _ => True) (Q := fun _ _ => True) hT ha hkid trivial
      (fun _ _ _ _ _ => ⟨trivial, trivial⟩) fun _ _ _ _ _ _ _ => trivial).1
  have hup : safely = true → Upward (fun j => Dom s k j ∨ Within s.kids j k) (Rel safely s k)
      (cancelChildren kid (setCancelled s k) k) := by
    rintro rfl
    exact upward_of_dom hT (h₂.evolves hT)
  have h₃ : Cancels c safely s k s (cancelCoroutines c safely (cancelChildren kid (setCancelled s k) k) k) :=
    h₂.trans (acts_cancelCoroutines safely (h₂.tree hT) hup (.inl (.inl (.refl k))))
  refine h₃.trans (acts_notify _ k (some e) fun cb hcb => ?_)
  exact ⟨(h₃.evolves hT).callbacks k hcb, .inl ⟨.refl k, .inr (by simp)⟩⟩

theorem acts_cancel (safely : Bool) (fuel : Nat) (hT : Tree s) (ha : (s.scopes k).alive = true) (e : Option E) :
    Cancels c safely s k s (cancel c safely fuel s k e) := by
  induction fuel generalizing s k e with
  | zero => exact .refl
  | succ fuel ih =>
    unfold cancel
    split
    · exact .refl
    · split
      · have hk : Dom s k k := .inl (.refl k)
        refine .head (.close hk ha) (.single (.start hk ?_))
        show ((s.setScope k _).scopes k).alive = true
        rw [setScope_self]
        exact ha
      · exact acts_stop safely hT ha _ fun t j hTt haj => ih hTt haj _

theorem turns_cancel (safely : Bool) (fuel : Nat) (e : Option E) :
    Turns c safely fun t j => cancel c safely fuel t j e := fun _ _ hT ha => acts_cancel safely fuel hT ha e

/-! ## Disposal -/

/-- A disposal of the subtree that `k` has in `s`. -/
abbrev Disposes (c : Env E) (s : St E) (k : Nat) : St E → St E → Prop :=
  Acts c Never (Dom s k) (Dom s k) (Last s k)

/-- A disposal that is part of one that has begun in `s`. -/
theorem Acts.disposes {u : St E} (h : Disposes c t j t u) (hs : Tree s) (hev : Evolves F L s t)
    (hdom : ∀ x, Dom t j x → Dom s k x) : Disposes c s k t u :=
  h.mono (fun _ h => h) hdom hdom fun x _ _ hl =>
    have hcb := hev.callbacks x hl.1
    ⟨hcb, (hdom x (.inl hl.2.1)).resolve_right (Nat.not_le.2 (hs.lt_of_callback hcb)), hl.2.2⟩

theorem mild_dropRef (s : St E) (i : Nat) : Mild s (dropRef s i) :=
  .setScope ⟨rfl, rfl, rfl, rfl, rfl, rfl, rfl, rfl, rfl, List.Subset.refl _, rfl⟩ rfl rfl

theorem mild_setDisposing (s : St E) (i : Nat) (on : Bool) : Mild s (setDisposing s i on) :=
  .setScope ⟨rfl, rfl, rfl, rfl, rfl, rfl, rfl, rfl, rfl, List.Subset.refl _, rfl⟩ rfl rfl

theorem soft_notifyLast (c : Env E) (s : St E) (i : Nat) : Soft s (notifyLast c s i) :=
  (soft_notify c s i none).trans (soft_clearCallbacks _ i)

theorem acts_notifyLast (hT : Tree s) (h : Disposes c s k s t) :
    Disposes c s k s (notifyLast c t k) := by
  refine (h.trans (acts_notify t k none fun cb hcb => ?_)).tail (.clear (.inl (.refl k)))
  exact ⟨(h.evolves hT).callbacks k hcb, .refl k, rfl⟩

theorem acts_disposeSelf (hT : Tree t) (hL : L k) (hK : K k) (hp : ∀ j, (t.scopes j).parent ≠ some k) :
    Acts c F L K R t (disposeSelf t k) := by
  unfold disposeSelf
  split
  · rename_i hf
    have ha : (t.scopes k).alive = true := by
      by_contra ha
      exact hf (hT.blank k (by simpa using ha)).finallyHandlers
    exact .head (.start hL ha) (.single (.mild (mild_setDisposing _ k false)))
  · split
    · exact .head (.mild (mild_dropRef t k)) (.single (.mild (mild_setDisposing _ k false)))
    · exact .single (.free hK hp)

/-- The loop over the children. Behind it nobody has `k` for a parent. -/
theorem acts_disposeKids (hT : Tree s) {fuel : Nat}
    (ih : ∀ (s : St E) (k : Nat), Tree s → Disposes c s k s (dispose c fuel s k))
    (l : List Nat) (hl : l ⊆ s.kids k) (t : St E) (ht : Disposes c s k s t)
    (hp : ∀ j, (t.scopes j).parent = some k → j ∈ l) :
    Disposes c s k s (l.foldl (fun s j => dispose c fuel (unlink s j) j) t) ∧
    ∀ j, ((l.foldl (fun s j => dispose c fuel (unlink s j) j) t).scopes j).parent ≠ some k := by
  induction l generalizing t with
  | nil => exact ⟨ht, fun j hj => by cases hp j hj⟩
  | cons j l ihl =>
    have hj : j ∈ s.kids k := hl List.mem_cons_self
    have ht₁ : Disposes c s k s (unlink t j) := ht.tail (.unlink (.inl (.child hj)))
    have hT₁ := ht₁.tree hT
    have hev := ht₁.evolves hT
    have hd := ih (unlink t j) j hT₁
    have ht₂ : Disposes c s k s (dispose c fuel (unlink t j) j) :=
      ht₁.trans (hd.disposes hT hev fun _ h => dom_kid hj (dom_later hev h))
    refine ihl (List.subset_of_cons_subset hl) _ ht₂ fun x hx => ?_
    rcases (hd.evolves hT₁).parent x k hx with hx | ⟨-, hk, -⟩
    · have hxj : x ≠ j := by
        rintro rfl
        rw [show (unlink t x).scopes x = _ from setScope_self ..] at hx
        cases hx
      rw [show (unlink t j).scopes x = _ from setScope_ne _ _ _ hxj] at hx
      exact (List.mem_cons.1 (hp x hx)).resolve_left hxj
    · -- nothing new hangs on `k`: it is older than `j`
      have hyoung := hT.forest.younger k j hj
      rcases hk with hw | hn
      · have := hw.le hT₁.forest
        omega
      · have := hT.forest.known k j hj
        have := hev.nScopes
        omega

theorem acts_dispose (fuel : Nat) (s : St E) (k : Nat) (hT : Tree s) : Disposes c s k s (dispose c fuel s k) := by
  induction fuel generalizing s k with
  | zero => exact .refl
  | succ fuel ih =>
    unfold dispose
    split
    · exact .refl
    · split
      · exact acts_notifyLast hT (.single (.mild (mild_dropRef s k)))
      · have hm : Mild s (s.setScope k { s.scopes k with refs := 1, disposing := true }) :=
          .setScope ⟨rfl, rfl, rfl, rfl, rfl, rfl, rfl, rfl, rfl, List.Subset.refl _, rfl⟩ rfl rfl
        obtain ⟨h₁, hp⟩ := acts_disposeKids hT (fun s k => ih s k) _ (List.Subset.refl _) _
          (.single (.mild hm)) fun j hj => hT.linked j k (by rw [← (hm.scope j).parent]; exact hj)
        have h₂ := acts_notifyLast hT h₁
        refine h₂.trans (acts_disposeSelf (h₂.tree hT) (.inl (.refl k)) (.inl (.refl k)) fun j => ?_)
        rw [((soft_notifyLast c _ k).scope j).parent]
        exact hp j

theorem acts_disposeChildren (hT : Tree s) (rounds : Nat) (t : St E) (n : Nat) (ht : Disposes c s k s t) :
    Disposes c s k s (disposeChildren c k rounds t n) := by
  induction rounds generalizing t n with
  | zero => exact ht
  | succ rounds ih =>
    unfold disposeChildren
    split
    · rename_i j hj
      have hev := ht.evolves hT
      exact ih _ _ (ht.trans ((acts_dispose (t.nScopes + 1) t j hev.tree).disposes hT hev fun _ h =>
        dom_later hev (dom_kid (List.mem_of_getElem? hj) h)))
    · exact ht

theorem acts_tryToDispose (hT : Tree s) (k : Nat) : Disposes c s k s (tryToDispose c s k).1 := by
  unfold tryToDispose
  split
  · exact .refl
  · split
    · have h₁ : Disposes c s k s (setDisposing s k true) :=
        .single (.mild (mild_setDisposing s k true))
      have h₂ : Disposes c s k s _ := (acts_disposeChildren hT (s.scopes k).scopes.length _ 0 h₁).tail
        (.mild (mild_setDisposing _ k false))
      have hev := h₂.evolves hT
      exact h₂.trans ((acts_dispose _ _ k hev.tree).disposes hT hev fun _ h => dom_later hev h)
    · exact .refl

theorem acts_release (hT : Tree s) (k : Nat) : Disposes c s k s (release c s k) := by
  unfold release
  split
  · have hm := mild_dropRef s k
    have hev : Evolves Never Never s (dropRef s k) := .soft hT hm.toSoft
    exact .head (.mild hm) ((acts_tryToDispose hev.tree k).disposes hT hev fun _ h => dom_later hev h)
  · exact acts_tryToDispose hT k

end Operations

end PhpAsync.L2.Scopes
