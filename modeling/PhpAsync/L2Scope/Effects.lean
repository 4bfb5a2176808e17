import PhpAsync.L2Scope.Tree
import Mathlib.Logic.Relation

/-!
# What an operation can do

Cancelling and disposing of a subtree are long recursions over a changing tree, but all
they do to it is a sequence of few actions (`Act`): plain updates, calls of callbacks,
the flags `CANCELLED` and `CLOSED`, the start of finally handlers, and in disposal the
removal of links and records. An action is tagged with where it may happen: `F` holds
where flags are set, `L` where finally handlers start, `K` where records go, `R i cb e`
for the callback `cb` of `i` called with `e`.

* `callback_answer`: what a callback does.
* `Acts.evolves`: no operation breaks the tree; what is new hangs on old scopes whose
  finally handlers were started; old coroutines neither end nor move.
* `Acts.holds`: outside of `F` and `L` nothing changes, as long as nothing is disposed of.
-/
namespace PhpAsync.L2.Scopes

open PhpAsync.Core

variable {E : Type}

variable {F L M N K : Nat → Prop} {R : Nat → Callback → Option E → Prop} {c : Env E} {i : Nat} {s t u : St E}
  {x y : Scope}

/-! ## Callbacks -/

def Callback.marks : Callback → Bool
  | .awaiter _ _ => true
  | .other marks => marks

/-- The subscribers that are left behind a call of `cb`, and what it writes. An awaiter is
resumed without an exception if it was notified without one, or if its error handler
returned. -/
inductive Answer (i : Nat) (cb : Callback) (e : Option E) (s : St E) : List Callback → List (Event E) → Prop
  | stays : Answer i cb e s (s.scopes i).callbacks []
  | resumed {a : Nat} (y : Option E) (ha : cb.isAwaiter a = true)
      (hnone : y = none → e = none ∨ cb = .awaiter a true) :
      Answer i cb e s ((s.scopes i).callbacks.filter fun cb => !cb.isAwaiter a) [.resumed a i y (unfinished s i)]

/-- The state behind a call. -/
def answer (s : St E) (i : Nat) (mark : Bool) (cbs : List Callback) (l : List (Event E)) : St E :=
  { s.setScope i { s.scopes i with handled := (s.scopes i).handled || mark, callbacks := cbs } with log := s.log ++ l }

theorem soft_handle (s : St E) (i : Nat) : Soft s (handle s i) :=
  .setScope ⟨rfl, rfl, rfl, rfl, rfl, rfl, rfl, rfl, rfl, List.Subset.refl _, rfl⟩

theorem resolve_answer (c : Env E) (i : Nat) (e : Option E) (s : St E) (a : Nat) (handler : Bool) :
    ∃ cbs l, Answer i (.awaiter a handler) e s cbs l ∧
      resolveWhenZombieCompleted c i e s a handler = answer s i e.isSome cbs l := by
  have hunf : unfinished (handle s i) i = unfinished s i := (soft_handle s i).unfinished i
  have hself : Callback.isAwaiter a (.awaiter a handler) = true := by simp [Callback.isAwaiter]
  have hstays : handle s i = answer s i true (s.scopes i).callbacks [] := by simp [answer, handle, St.setScope]
  have hresume : ∀ y, resume (handle s i) i a y = answer s i true
      ((s.scopes i).callbacks.filter fun cb => !cb.isAwaiter a) [.resumed a i y (unfinished s i)] := by
    intro y
    unfold resume
    rw [hunf]
    simp [answer, handle, St.write, St.setScope]
  unfold resolveWhenZombieCompleted resumeWhenDone
  cases e with
  | none =>
    dsimp only
    split
    · exact ⟨_, _, .resumed none hself fun _ => .inl rfl, by simp [answer, resume, St.write, St.setScope]⟩
    · refine ⟨_, _, .stays, ?_⟩
      unfold answer
      rw [Option.isSome_none, Bool.or_false, List.append_nil]
      exact (setScope_same s i).symm
  | some x =>
    dsimp only
    split
    · rename_i hh
      split
      · exact ⟨_, _, .resumed (some _) hself nofun, hresume _⟩
      · split
        · exact ⟨_, _, .resumed none hself fun _ => .inr (by rw [hh]), hresume none⟩
        · exact ⟨_, _, .stays, hstays⟩
    · exact ⟨_, _, .resumed (some x) hself nofun, hresume _⟩

/-- **What a callback does.** All of it happens at its scope. -/
theorem callback_answer (c : Env E) (i : Nat) (e : Option E) (s : St E) (cb : Callback) :
    ∃ cbs l, Answer i cb e s cbs l ∧
      callback c i e s cb = answer s i (e.isSome && cb.marks) cbs (.notified i cb e :: l) := by
  cases cb with
  | awaiter a handler =>
    obtain ⟨cbs, l, ha, heq⟩ := resolve_answer c i e (s.write (.notified i (.awaiter a handler) e)) a handler
    refine ⟨cbs, l, ?_, ?_⟩
    · cases ha with
      | stays => exact .stays
      | resumed y ha hnone => exact .resumed y ha hnone
    · show resolveWhenZombieCompleted c i e (s.write (.notified i (.awaiter a handler) e)) a handler = _
      rw [heq]
      simp [answer, Callback.marks, St.write, St.setScope]
  | other marks =>
    refine ⟨_, _, .stays, ?_⟩
    unfold callback
    cases marks <;> cases e <;> simp [answer, Callback.marks, handle, St.write, St.setScope]

theorem Answer.subset {cb : Callback} {e : Option E} {cbs : List Callback} {l : List (Event E)}
    (h : Answer i cb e s cbs l) : cbs ⊆ (s.scopes i).callbacks := by
  cases h with
  | stays => exact List.Subset.refl _
  | resumed => exact List.filter_sublist.subset

theorem soft_callback (c : Env E) (i : Nat) (e : Option E) (s : St E) (cb : Callback) :
    Soft s (callback c i e s cb) := by
  obtain ⟨cbs, l, ha, heq⟩ := callback_answer c i e s cb
  have hs : Soft s (s.setScope i { s.scopes i with
      handled := (s.scopes i).handled || (e.isSome && cb.marks), callbacks := cbs }) :=
    .setScope ⟨rfl, rfl, rfl, rfl, rfl, rfl, rfl, rfl, rfl, ha.subset, rfl⟩
  rw [heq]
  exact ⟨rfl, rfl, rfl, rfl, hs.scope, hs.coroutine, hs.unborn⟩

theorem soft_clearCallbacks (s : St E) (i : Nat) : Soft s (clearCallbacks s i) :=
  .setScope ⟨rfl, rfl, rfl, rfl, rfl, rfl, rfl, rfl, rfl, List.nil_subset _, rfl⟩

/-! ## Actions -/

/-- A plain update that calls nobody. -/
structure Mild (s t : St E) : Prop extends Soft s t where
  log : t.log = s.log
  handled : ∀ i, (t.scopes i).handled = (s.scopes i).handled
  callbacks : ∀ i, (t.scopes i).callbacks = (s.scopes i).callbacks

inductive Act (c : Env E) (F L K : Nat → Prop) (R : Nat → Callback → Option E → Prop) (s : St E) :
    St E → Prop
  | mild {t : St E} (h : Mild s t) : Act c F L K R s t
  | call {i : Nat} {cb : Callback} {e : Option E} (h : R i cb e) :
      Act c F L K R s (callback c i e s cb)
  | flag {i : Nat} (h : F i) (ha : (s.scopes i).alive = true) : Act c F L K R s (setCancelled s i)
  | close {i : Nat} (h : F i) (ha : (s.scopes i).alive = true) : Act c F L K R s (close s i)
  | start {i : Nat} (h : L i) (ha : (s.scopes i).alive = true) :
      Act c F L K R s (callFinallyHandlers s i)
  | clear {i : Nat} (h : K i) : Act c F L K R s (clearCallbacks s i)
  | unlink {j : Nat} (h : K j) : Act c F L K R s (unlink s j)
  | free {i : Nat} (h : K i) (hp : ∀ j, (s.scopes j).parent ≠ some i) : Act c F L K R s (free s i)

def Acts (c : Env E) (F L K : Nat → Prop) (R : Nat → Callback → Option E → Prop) :
    St E → St E → Prop := Relation.ReflTransGen (Act c F L K R)

def Never (_ : Nat) : Prop := False

def Any (_ : Nat) : Prop := True

variable {F' L' : Nat → Prop}

theorem Act.mono {K' : Nat → Prop} {R' : Nat → Callback → Option E → Prop} (ha : Act c F L K R s t)
    (hF : ∀ i, F i → F' i) (hL : ∀ i, L i → L' i) (hK : ∀ i, K i → K' i) (hR : ∀ i cb e, R i cb e → R' i cb e) :
    Act c F' L' K' R' s t := by
  cases ha with
  | mild hm => exact .mild hm
  | call h => exact .call (hR _ _ _ h)
  | flag h ha => exact .flag (hF _ h) ha
  | close h ha => exact .close (hF _ h) ha
  | start h ha => exact .start (hL _ h) ha
  | clear h => exact .clear (hK _ h)
  | unlink h => exact .unlink (hK _ h)
  | free h hp => exact .free (hK _ h) hp

theorem Acts.mono {K' : Nat → Prop} {R' : Nat → Callback → Option E → Prop} (ha : Acts c F L K R s t)
    (hF : ∀ i, F i → F' i) (hL : ∀ i, L i → L' i) (hK : ∀ i, K i → K' i) (hR : ∀ i cb e, R i cb e → R' i cb e) :
    Acts c F' L' K' R' s t := by
  induction ha with
  | refl => exact .refl
  | tail _ hb ih => exact .tail ih (hb.mono hF hL hK hR)

/-- Without flags, starts and removals there are plain updates only. -/
theorem Acts.soft (ha : Acts c Never Never Never R s t) : Soft s t := by
  induction ha with
  | refl => exact .refl s
  | tail _ hb ih =>
    cases hb with
    | mild hm => exact ih.trans hm.toSoft
    | call => exact ih.trans (soft_callback ..)
    | flag h | close h | start h | clear h | unlink h | free h => exact h.elim

/-! ## Finally handlers -/

theorem startFinally_self (o : Owner) (hi : i < s.nScopes) : (startFinally s o i).scopes i =
    { s.scopes i with scopes := (s.scopes i).scopes ++ [s.nScopes], refs := (s.scopes i).refs + 1 } := by
  have hn : i ≠ s.nScopes := Nat.ne_of_lt hi
  have hx : (pushContext (spawn (newScope s (some i) false) s.nScopes) ⟨o, i⟩).scopes i =
      { s.scopes i with scopes := (s.scopes i).scopes ++ [s.nScopes] } := by
    show (spawn (newScope s (some i) false) s.nScopes).scopes i = _
    rw [spawn_other _ hn, newScope_parent false hn]
  unfold startFinally addRef
  rw [setScope_self, hx]

variable {j : Nat}

theorem startFinally_other (o : Owner) (hj : j ≠ i) (hn : j ≠ s.nScopes) :
    (startFinally s o i).scopes j = s.scopes j := by
  unfold startFinally addRef
  rw [setScope_ne _ _ _ hj]
  show (spawn (newScope s (some i) false) s.nScopes).scopes j = _
  rw [spawn_other _ hn, newScope_other false hj hn]

/-! ## Growth -/

/-- The record may lose some of what it had; `F` says whether its flags may be set. -/
structure Scope.Less (F : Prop) (x y : Scope) : Prop where
  scopes : y.scopes ⊆ x.scopes
  parent : ∀ p, y.parent = some p → x.parent = some p
  coroutines : y.coroutines ⊆ x.coroutines
  callbacks : y.callbacks ⊆ x.callbacks
  finals : y.finallyHandlers = x.finallyHandlers ∨ y.finallyHandlers = []
  closed : y.closed = true → x.closed = true ∨ F
  cancelled : y.cancelled = true → x.cancelled = true ∨ F

theorem Scope.Less.refl {F : Prop} (x : Scope) : x.Less F x :=
  ⟨List.Subset.refl _, fun _ => id, List.Subset.refl _, List.Subset.refl _, .inl rfl, .inl, .inl⟩

theorem Scope.Like.less {F : Prop} (h : x.Like y) : x.Less F y :=
  ⟨h.scopes ▸ List.Subset.refl _, fun _ hp => h.parent ▸ hp, h.coroutines ▸ List.Subset.refl _, h.callbacks,
    .inl h.finallyHandlers, fun hc => .inl (h.closed ▸ hc), fun hc => .inl (h.cancelled ▸ hc)⟩

/-- What is left of the old state, and where the new is: flags are set in `F`, new scopes
hang on `N`, new coroutines are in `M`. -/
structure Grows (F N M : Nat → Prop) (s t : St E) : Prop where
  tree : Tree t
  nScopes : s.nScopes ≤ t.nScopes
  fresh : t.nScopes = s.nScopes ∨ ∃ p, N p
  nCoroutines : s.nCoroutines ≤ t.nCoroutines
  kids : ∀ p j, j ∈ t.kids p → j ∈ s.kids p ∨ (s.nScopes ≤ j ∧ N p)
  parent : ∀ j p, (t.scopes j).parent = some p → (s.scopes j).parent = some p ∨ (s.nScopes ≤ j ∧ N p)
  members : ∀ i d, d ∈ (t.scopes i).coroutines → d ∈ (s.scopes i).coroutines ∨ (M i ∧ s.nCoroutines ≤ d)
  coroutine : ∀ d, d < s.nCoroutines → (s.coroutines d).Like (t.coroutines d)
  callbacks : ∀ i, (t.scopes i).callbacks ⊆ (s.scopes i).callbacks
  finals : ∀ i, (t.scopes i).finallyHandlers = (s.scopes i).finallyHandlers ∨ (t.scopes i).finallyHandlers = []
  closed : ∀ i, (t.scopes i).closed = true → (s.scopes i).closed = true ∨ F i
  cancelled : ∀ i, (t.scopes i).cancelled = true → (s.scopes i).cancelled = true ∨ F i

namespace Grows

theorem mono {N' M' : Nat → Prop} (h : Grows F N M s t) (hF : ∀ i, F i → F' i) (hN : ∀ i, N i → N' i)
    (hM : ∀ i, M i → M' i) : Grows F' N' M' s t :=
  { h with
    fresh := h.fresh.imp_right fun ⟨p, hp⟩ => ⟨p, hN p hp⟩
    kids := fun p j hj => (h.kids p j hj).imp_right fun hn => ⟨hn.1, hN p hn.2⟩
    parent := fun j p hp => (h.parent j p hp).imp_right fun hn => ⟨hn.1, hN p hn.2⟩
    members := fun i d hd => (h.members i d hd).imp_right fun hn => ⟨hM i hn.1, hn.2⟩
    closed := fun i hi => (h.closed i hi).imp_right (hF i)
    cancelled := fun i hi => (h.cancelled i hi).imp_right (hF i) }

theorem any (h : Grows F N M s t) : Grows Any Any Any s t :=
  h.mono (fun _ _ => trivial) (fun _ _ => trivial) fun _ _ => trivial

theorem trans (h : Grows F N M s t) (h' : Grows F N M t u) : Grows F N M s u where
  tree := h'.tree
  nScopes := Nat.le_trans h.nScopes h'.nScopes
  fresh := by grind [h'.fresh, h.fresh]
  nCoroutines := Nat.le_trans h.nCoroutines h'.nCoroutines
  kids p j hj := by grind [h'.kids, h.kids, h.nScopes]
  parent j p hp := by grind [h'.parent, h.parent, h.nScopes]
  members i d hd := by grind [h'.members, h.members, h.nCoroutines]
  coroutine d hd := (h.coroutine d hd).trans (h'.coroutine d (Nat.lt_of_lt_of_le hd h.nCoroutines))
  callbacks i := List.Subset.trans (h'.callbacks i) (h.callbacks i)
  finals i := by grind [h'.finals, h.finals]
  closed i hi := by
    rcases h'.closed i hi with hi | hF
    · exact h.closed i hi
    · exact .inr hF
  cancelled i hi := by
    rcases h'.cancelled i hi with hi | hF
    · exact h.cancelled i hi
    · exact .inr hF

theorem finals_nil {p : Nat} (h : Grows F N M s t) (hp : (s.scopes p).finallyHandlers = []) :
    (t.scopes p).finallyHandlers = [] := (h.finals p).elim (·.trans hp) id

/-- Nothing is new: every record keeps what it had or loses some of it, and flags are set
where they may be. -/
theorem less (hT : Tree t) (hn : t.nScopes = s.nScopes) (hc : t.nCoroutines = s.nCoroutines)
    (hco : ∀ d, (s.coroutines d).Like (t.coroutines d)) (h : ∀ i, (s.scopes i).Less (F i) (t.scopes i)) :
    Grows F N M s t :=
  ⟨hT, Nat.le_of_eq hn.symm, .inl hn, Nat.le_of_eq hc.symm, fun p _ hj => .inl ((h p).scopes hj),
    fun j p hp => .inl ((h j).parent p hp), fun i _ hd => .inl ((h i).coroutines hd), fun d _ => hco d,
    fun i => (h i).callbacks, fun i => (h i).finals, fun i => (h i).closed, fun i => (h i).cancelled⟩

theorem soft (hT : Tree s) (h : Soft s t) : Grows F N M s t :=
  less (hT.soft h) h.nScopes h.nCoroutines h.coroutine fun i => (h.scope i).less

theorem refl (hT : Tree s) : Grows F N M s s := soft hT (.refl s)

/-- One record changes. -/
theorem set (hT : Tree t) (h₁ : t.scopes = (s.setScope i x).scopes) (h₂ : t.nScopes = s.nScopes)
    (h₃ : t.coroutines = s.coroutines) (h₄ : t.nCoroutines = s.nCoroutines) (hx : (s.scopes i).Less (F i) x) :
    Grows F N M s t := by
  refine less hT h₂ h₄ (fun d => h₃ ▸ .refl _) fun j => ?_
  rw [h₁]
  by_cases hj : j = i
  · subst hj
    rw [setScope_self]
    exact hx
  · rw [setScope_ne _ _ _ hj]
    exact .refl _

/-- The rest of the state does not matter. -/
theorem rest (h : Grows F N M s t) (contexts : List Context) (current : Option Nat) (calls : List (Call E))
    (log : List (Event E)) :
    Grows F N M s { t with contexts := contexts, current := current, calls := calls, log := log } :=
  { h with tree := h.tree.congr rfl rfl rfl rfl }

theorem newScope (hT : Tree s) {parent : Option Nat} (ha : ∀ p, parent = some p → (s.scopes p).alive = true)
    (object : Bool) : Grows F (fun p => ∀ q, parent = some q → p = q) M s (newScope s parent object) := by
  have hrec := newScope_record hT ha object
  refine ⟨hT.newScope ha object, ?_, ?_, ?_, fun p j hj => ?_, fun j p hp => ?_, fun j d hd => ?_, fun d _ => ?_,
    fun j => ?_, fun j => ?_, fun j hj => ?_, fun j hj => ?_⟩
  · cases parent <;> exact Nat.le_succ _
  · cases parent with
    | none => exact .inr ⟨0, nofun⟩
    | some p => exact .inr ⟨p, fun _ hq => Option.some.inj hq⟩
  · cases parent <;> exact Nat.le_refl _
  · cases parent with
    | none => exact .inl (newRoot_kids hT object ▸ hj)
    | some q =>
      rw [newScope_kids object hT (hT.living q (ha q rfl))] at hj
      rcases mem_graft hj with hj | ⟨rfl, rfl⟩
      · exact .inl hj
      · exact .inr ⟨Nat.le_refl _, fun _ hq => Option.some.inj hq⟩
  · rcases hrec j with ⟨l, h⟩ | ⟨rfl, b, h⟩ <;> rw [h] at hp
    · exact .inl hp
    · exact .inr ⟨Nat.le_refl _, fun q hq => Option.some.inj (hp.symm.trans hq)⟩
  · rcases hrec j with ⟨l, h⟩ | ⟨rfl, b, h⟩ <;> rw [h] at hd
    · exact .inl hd
    · cases hd
  · cases parent <;> exact .refl _
  · rcases hrec j with ⟨l, h⟩ | ⟨rfl, b, h⟩ <;> rw [h]
    · exact List.Subset.refl _
    · exact List.nil_subset _
  · rcases hrec j with ⟨l, h⟩ | ⟨rfl, b, h⟩ <;> rw [h]
    · exact .inl rfl
    · exact .inr rfl
  · rcases hrec j with ⟨l, h⟩ | ⟨rfl, b, h⟩ <;> rw [h] at hj
    · exact .inl hj
    · cases hj
  · rcases hrec j with ⟨l, h⟩ | ⟨rfl, b, h⟩ <;> rw [h] at hj
    · exact .inl hj
    · cases hj

theorem spawn (hT : Tree s) (ha : (s.scopes i).alive = true) : Grows F N (· = i) s (spawn s i) where
  tree := hT.spawn ha
  nScopes := Nat.le_refl _
  fresh := .inl rfl
  nCoroutines := Nat.le_succ _
  kids p j hj := .inl (spawn_kids s i ▸ hj)
  parent j p hp := .inl (spawn_field Scope.parent (fun _ _ _ => rfl) s i j ▸ hp)
  members j d hd := by
    by_cases hj : j = i
    · subst hj
      rw [spawn_self] at hd
      rcases List.mem_append.1 hd with hd | hd
      · exact .inl hd
      · exact .inr ⟨rfl, Nat.le_of_eq (List.mem_singleton.1 hd).symm⟩
    · rw [spawn_other s hj] at hd
      exact .inl hd
  coroutine d hd := by
    rw [spawn_old s i (Nat.ne_of_lt hd)]
    exact .refl _
  callbacks j := by
    rw [spawn_field Scope.callbacks (fun _ _ _ => rfl)]
    exact List.Subset.refl _
  finals j := .inl (spawn_field Scope.finallyHandlers (fun _ _ _ => rfl) s i j)
  closed j hj := .inl (spawn_field Scope.closed (fun _ _ _ => rfl) s i j ▸ hj)
  cancelled j hj := .inl (spawn_field Scope.cancelled (fun _ _ _ => rfl) s i j ▸ hj)

/-- A coroutine in a new scope below `i`. -/
theorem sprout (hT : Tree s) (ha : (s.scopes i).alive = true) :
    Grows F (· = i) (s.nScopes ≤ ·) s (Scopes.spawn (Scopes.newScope s (some i) false) s.nScopes) := by
  have h₁ : Grows F (· = i) (s.nScopes ≤ ·) s (Scopes.newScope s (some i) false) :=
    (newScope hT (by rintro _ ⟨⟩; exact ha) false).mono (fun _ => id) (fun _ h => h i rfl) fun _ => id
  refine h₁.trans ((spawn h₁.tree ?_).mono (fun _ => id) (fun _ => id) fun j hj => Nat.le_of_eq hj.symm)
  rw [newScope_self false (Nat.ne_of_lt (hT.living i ha))]

theorem startFinally (hT : Tree s) (ha : (s.scopes i).alive = true) (o : Owner) :
    Grows F (· = i) (s.nScopes ≤ ·) s (startFinally s o i) :=
  have h := (sprout hT ha).rest _ _ _ _
  h.trans (.soft h.tree (.setScope ⟨rfl, rfl, rfl, rfl, rfl, rfl, rfl, rfl, rfl, List.Subset.refl _, rfl⟩))

theorem spawnAndThrow (hT : Tree s) (ha : (s.scopes i).alive = true) : Grows F Any Any s (spawnAndThrow s i) := by
  unfold Scopes.spawnAndThrow
  split
  · exact (sprout hT ha).mono (fun _ => id) (fun _ _ => trivial) fun _ _ => trivial
  · exact (spawn hT ha).mono (fun _ => id) (fun _ => id) fun _ _ => trivial

theorem removeCoroutine (hT : Tree s) (i d : Nat) : Grows F N M s (removeCoroutine s i d) := by
  have hT' := hT.removeCoroutine i d
  obtain ⟨n, m, heq, -⟩ := removeCoroutine_eq s i d
  rw [heq] at hT' ⊢
  exact set hT' rfl rfl rfl rfl { Scope.Less.refl _ with coroutines := List.erase_subset }


theorem within {d : Nat} (h : Grows F N M s t) (hw : Within t.kids i d) (hd : d < s.nScopes) : Within s.kids i d := by
  refine Core.Grown.within (fun p j hj hlt => ?_) h.tree.forest hw hd
  exact (h.kids p j hj).resolve_right fun hn => Nat.not_lt.2 hn.1 hlt

/-- New scopes hang on `N`. -/
theorem within_old (h : Grows F N M s t) (hN : ∀ p, Within s.kids i p → ¬ N p) (hw : Within t.kids i j) :
    Within s.kids i j := by
  induction hw with
  | refl => exact .refl _
  | @down i j _ hj _ ih =>
    have hj' := (h.kids i j hj).resolve_right fun hn => hN i (.refl i) hn.2
    exact .down hj' (ih fun p hp => hN p (.down hj' hp))

/-- Who is unfinished was there before, unless coroutines have come. -/
theorem mem_unfinished {d : Nat} (h : Grows F N M s t) (hs : Tree s) (hM : ∀ j, Within t.kids i j → ¬ M j)
    (hd : d ∈ unfinished t i) : d ∈ unfinished s i ∧ (s.coroutines d).Like (t.coroutines d) := by
  obtain ⟨j, hw, hmem, hf⟩ := (Scopes.mem_unfinished h.tree).1 hd
  have hmem' := (h.members j d hmem).resolve_right fun hn => hM j hw hn.1
  have hlike := h.coroutine d (hs.known hmem')
  refine ⟨(Scopes.mem_unfinished hs).2 ⟨j, h.within hw (hs.living j (hs.alive_of_member hmem')), hmem', ?_⟩, hlike⟩
  rw [← hlike.finished]
  exact hf

theorem stopped (h : Grows F N M s t) (hi : stopped t i = true) : stopped s i = true ∨ F i := by
  unfold Scopes.stopped at hi ⊢
  rcases Bool.or_eq_true_iff.1 hi with hi | hi
  · exact (h.closed i hi).imp_left fun h => by rw [h, Bool.true_or]
  · exact (h.cancelled i hi).imp_left fun h => by rw [h, Bool.or_true]

end Grows

/-! ## Evolution -/

/-- What is new hangs on scopes whose finally handlers were started. -/
abbrev Evolves (F L : Nat → Prop) (s t : St E) : Prop :=
  Grows F (fun p => L p ∧ (s.scopes p).finallyHandlers ≠ []) (s.nScopes ≤ ·) s t

namespace Evolves

theorem mono (h : Evolves F L s t) (hF : ∀ i, F i → F' i) (hL : ∀ i, L i → L' i) :
    Evolves F' L' s t := Grows.mono h hF (fun p hp => ⟨hL p hp.1, hp.2⟩) fun _ => id

theorem trans (h : Evolves F L s t) (h' : Evolves F L t u) : Evolves F L s u :=
  Grows.trans h (Grows.mono h' (fun _ => id) (fun _ hp => ⟨hp.1, fun hf => hp.2 (h.finals_nil hf)⟩) fun _ => Nat.le_trans h.nScopes)

theorem takes (hT : Tree s) (ha : (s.scopes i).alive = true) : Grows F N M s (takeFinallyHandlers s i) :=
  have hT' : Tree (s.setScope i { s.scopes i with finallyHandlers := [] }) := hT.mark ha rfl rfl rfl rfl rfl
  .set (hT'.congr rfl rfl rfl rfl) rfl rfl rfl rfl { Scope.Less.refl _ with finals := .inr rfl }

theorem taken (hT : Tree s) (ha : (s.scopes i).alive = true) (o : Owner) :
    Grows F (· = i) (s.nScopes ≤ ·) (takeFinallyHandlers s i) (startFinally (takeFinallyHandlers s i) o i) := by
  refine .startFinally (takes (F := F) (N := Never) (M := Never) hT ha).tree ?_ o
  rw [show (takeFinallyHandlers s i).scopes i = _ from setScope_self ..]
  exact ha

/-- The start of finally handlers that were there. -/
theorem start (hT : Tree s) (ha : (s.scopes i).alive = true) (hi : L i) : Evolves F L s (callFinallyHandlers s i) := by
  unfold callFinallyHandlers
  split
  · exact .refl hT
  · rename_i hne
    exact Grows.trans (takes hT ha) ((taken hT ha _).mono (fun _ => id) (fun p hp => hp ▸ ⟨hi, hne⟩) fun _ => id)

theorem unlink (hT : Tree s) (j : Nat) : Grows F N M s (unlink s j) :=
  .set (i := j) (x := { s.scopes j with parent := none }) (hT.unlink j) rfl rfl rfl rfl
    { Scope.Less.refl _ with parent := nofun }

theorem free (hT : Tree s) (hp : ∀ j, (s.scopes j).parent ≠ some i) : Grows F N M s (free s i) := by
  refine .less (hT.free hp) rfl rfl (fun _ => .refl _) fun k => ?_
  by_cases hk : k = i
  · rw [hk, free_self]
    exact ⟨List.nil_subset _, nofun, List.nil_subset _, List.nil_subset _, .inr rfl, nofun, nofun⟩
  · rw [free_other s hk]
    exact { Scope.Less.refl _ with scopes := List.erase_subset }

end Evolves

theorem Act.evolves (ha : Act c F L K R s t) (h : Tree s) : Evolves F L s t := by
  cases ha with
  | mild hm => exact .soft h hm.toSoft
  | call => exact .soft h (soft_callback ..)
  | @flag i hF ha =>
    exact .set (x := { s.scopes i with cancelled := true }) (h.mark ha rfl rfl rfl rfl rfl) rfl rfl rfl rfl
      { Scope.Less.refl _ with cancelled := fun _ => .inr hF }
  | @close i hF ha =>
    have hT : Tree (s.setScope i { s.scopes i with closed := true }) := h.mark ha rfl rfl rfl rfl rfl
    exact .set (hT.congr rfl rfl rfl rfl) rfl rfl rfl rfl { Scope.Less.refl _ with closed := fun _ => .inr hF }
  | start hL ha => exact .start h ha hL
  | clear => exact .soft h (soft_clearCallbacks ..)
  | unlink => exact .unlink h _
  | free _ hp => exact .free h hp

theorem Acts.evolves (ha : Acts c F L K R s t) (h : Tree s) : Evolves F L s t := by
  induction ha with
  | refl => exact .refl h
  | tail _ hb ih => exact ih.trans (hb.evolves ih.tree)

theorem Acts.tree (ha : Acts c F L K R s t) (h : Tree s) : Tree t := (ha.evolves h).tree

/-- No handler of exceptions is called, and only scopes start their finally handlers. -/
theorem Act.calls (ha : Act c F L K R s t) :
    t.calls = s.calls ∧ ∀ x ∈ t.contexts, x ∈ s.contexts ∨ ∃ i, x.owner = .scope i := by
  cases ha with
  | mild hm => exact ⟨hm.calls, fun x hx => .inl (hm.contexts ▸ hx)⟩
  | @call i cb e _ =>
    have hs := soft_callback c i e s cb
    exact ⟨hs.calls, fun x hx => .inl (hs.contexts ▸ hx)⟩
  | @start i =>
    unfold callFinallyHandlers
    split
    · exact ⟨rfl, fun _ hx => .inl hx⟩
    · refine ⟨rfl, fun x hx => ?_⟩
      rcases List.mem_append.1 hx with hx | hx
      · exact .inl hx
      · exact .inr ⟨i, by rw [List.mem_singleton.1 hx]⟩
  | flag | close | clear | unlink | free => exact ⟨rfl, fun _ hx => .inl hx⟩

theorem Acts.calls (ha : Acts c F L K R s t) :
    t.calls = s.calls ∧ ∀ x ∈ t.contexts, x ∈ s.contexts ∨ ∃ i, x.owner = .scope i := by
  induction ha with
  | refl => exact ⟨rfl, fun _ hx => .inl hx⟩
  | tail _ hb ih => grind [hb.calls]

/-! ## Frames -/

structure Scope.Same (x y : Scope) : Prop where
  alive : y.alive = x.alive
  parent : y.parent = x.parent
  coroutines : y.coroutines = x.coroutines
  handler : y.handler = x.handler
  childHandler : y.childHandler = x.childHandler
  closed : x.closed = true → y.closed = true
  cancelled : x.cancelled = true → y.cancelled = true

theorem Scope.Same.refl (x : Scope) : x.Same x := ⟨rfl, rfl, rfl, rfl, rfl, id, id⟩

theorem Scope.Same.trans {z : Scope} (h : x.Same y) (h' : y.Same z) : x.Same z where
  alive := h'.alive.trans h.alive
  parent := h'.parent.trans h.parent
  coroutines := h'.coroutines.trans h.coroutines
  handler := h'.handler.trans h.handler
  childHandler := h'.childHandler.trans h.childHandler
  closed hx := h'.closed (h.closed hx)
  cancelled hx := h'.cancelled (h.cancelled hx)

theorem Scope.Like.same (h : x.Like y) : x.Same y where
  alive := h.alive
  parent := h.parent
  coroutines := h.coroutines
  handler := h.handler
  childHandler := h.childHandler
  closed hx := by rw [h.closed]; exact hx
  cancelled hx := by rw [h.cancelled]; exact hx

theorem Scope.Same.stopped (h : x.Same y) (hx : (x.closed || x.cancelled) = true) :
    (y.closed || y.cancelled) = true := by
  rcases Bool.or_eq_true_iff.1 hx with hx | hx
  · rw [h.closed hx, Bool.true_or]
  · rw [h.cancelled hx, Bool.or_true]

/-- What nothing but disposal takes away: a subscriber stays, or is an awaiter and somebody
has been called at its scope. -/
structure Holds (R : Nat → Callback → Option E → Prop) (s t : St E) : Prop where
  nScopes : s.nScopes ≤ t.nScopes
  log : ∃ l, t.log = s.log ++ l
  same : ∀ i, i < s.nScopes → (s.scopes i).Same (t.scopes i)
  kids : ∀ i, i < s.nScopes → s.kids i ⊆ t.kids i
  handled : ∀ i, i < s.nScopes → (∀ cb e, ¬ R i cb (some e)) →
    (t.scopes i).handled = (s.scopes i).handled
  callbacks : ∀ i, i < s.nScopes → ∀ cb ∈ (s.scopes i).callbacks,
    cb ∈ (t.scopes i).callbacks ∨ (∃ a, cb.isAwaiter a = true) ∧ ∃ b e, R i b e

namespace Holds

theorem trans (h : Holds R s t) (h' : Holds R t u) : Holds R s u where
  nScopes := Nat.le_trans h.nScopes h'.nScopes
  log := by grind [h.log, h'.log]
  same i hi := (h.same i hi).trans (h'.same i (Nat.lt_of_lt_of_le hi h.nScopes))
  kids i hi := List.Subset.trans (h.kids i hi) (h'.kids i (Nat.lt_of_lt_of_le hi h.nScopes))
  handled i hi hR :=
    (h'.handled i (Nat.lt_of_lt_of_le hi h.nScopes) hR).trans (h.handled i hi hR)
  callbacks i hi cb hcb := by
    rcases h.callbacks i hi cb hcb with hcb | hcb
    · exact h'.callbacks i (Nat.lt_of_lt_of_le hi h.nScopes) cb hcb
    · exact .inr hcb

theorem mild (h : Mild s t) : Holds R s t where
  nScopes := Nat.le_of_eq h.nScopes.symm
  log := ⟨[], by rw [h.log, List.append_nil]⟩
  same i _ := (h.scope i).same
  kids i _ := by rw [h.toSoft.kids]; exact List.Subset.refl _
  handled i _ _ := h.handled i
  callbacks i _ cb hcb := by rw [h.callbacks i]; exact .inl hcb

theorem refl (s : St E) : Holds R s s := mild ⟨.refl s, rfl, fun _ => rfl, fun _ => rfl⟩

/-- One old record changes, if any. -/
theorem set (hn : s.nScopes ≤ t.nScopes) (hl : ∃ l, t.log = s.log ++ l)
    (h₁ : ∀ j, j < s.nScopes → j ≠ i → t.scopes j = s.scopes j) (hx : (s.scopes i).Same (t.scopes i))
    (hx₁ : s.kids i ⊆ t.kids i) (hx₂ : (t.scopes i).handled = (s.scopes i).handled ∨ ∃ cb e, R i cb (some e))
    (hx₃ : ∀ cb ∈ (s.scopes i).callbacks,
      cb ∈ (t.scopes i).callbacks ∨ (∃ a, cb.isAwaiter a = true) ∧ ∃ b e, R i b e) : Holds R s t := by
  refine ⟨hn, hl, fun j hj => ?_, fun j hj => ?_, fun j hj hR => ?_, fun j hj cb hcb => ?_⟩
  all_goals by_cases hji : j = i
  · exact hji ▸ hx
  · rw [h₁ j hj hji]
    exact .refl _
  · exact hji ▸ hx₁
  · unfold St.kids
    rw [h₁ j hj hji]
    exact List.Subset.refl _
  · subst hji
    exact hx₂.resolve_right fun ⟨cb, e, h⟩ => hR cb e h
  · rw [h₁ j hj hji]
  · subst hji
    exact hx₃ cb hcb
  · rw [h₁ j hj hji]
    exact .inl hcb

theorem call (hR : R i cb e) : Holds R s (callback c i e s cb) := by
  obtain ⟨cbs, l, ha, heq⟩ := callback_answer c i e s cb
  have hself : (callback c i e s cb).scopes i = { s.scopes i with
      handled := (s.scopes i).handled || (e.isSome && cb.marks), callbacks := cbs } := heq ▸ setScope_self ..
  refine .set (i := i) (heq ▸ Nat.le_refl _) (heq ▸ ⟨_, rfl⟩) (fun j _ hj => heq ▸ setScope_ne _ _ _ hj) ?_ ?_ ?_
    fun b hb => ?_
  · rw [hself]
    exact ⟨rfl, rfl, rfl, rfl, rfl, id, id⟩
  · unfold St.kids
    rw [hself]
    exact List.Subset.refl _
  · rw [hself]
    cases e with
    | none => exact .inl (Bool.or_false _)
    | some x => exact .inr ⟨cb, x, hR⟩
  · rw [hself]
    cases ha with
    | stays => exact .inl hb
    | @resumed a _ _ _ =>
      by_cases hb' : b.isAwaiter a = true
      · exact .inr ⟨⟨a, hb'⟩, cb, e, hR⟩
      · exact .inl (List.mem_filter.2 ⟨hb, by simpa using hb'⟩)

/-- One record changes, in its flags or its finally handlers. -/
theorem flag (hl : ∃ l, t.log = s.log ++ l) (h₁ : t.scopes = (s.setScope i x).scopes) (h₂ : t.nScopes = s.nScopes)
    (hx : (s.scopes i).Same x) (hx₁ : x.scopes = (s.scopes i).scopes) (hx₂ : x.handled = (s.scopes i).handled)
    (hx₃ : x.callbacks = (s.scopes i).callbacks) : Holds R s t := by
  have hself : t.scopes i = x := by rw [h₁, setScope_self]
  refine .set (i := i) (Nat.le_of_eq h₂.symm) hl (fun j _ hj => by rw [h₁, setScope_ne _ _ _ hj]) (hself ▸ hx) ?_
    (.inl (by rw [hself, hx₂])) fun cb hcb => .inl (by rw [hself, hx₃]; exact hcb)
  unfold St.kids
  rw [hself, hx₁]
  exact List.Subset.refl _

theorem startFinally (hi : i < s.nScopes) (o : Owner) : Holds R s (startFinally s o i) := by
  have hself := startFinally_self o hi
  refine .set (i := i) (Nat.le_succ _) ⟨[], (List.append_nil _).symm⟩
    (fun j hj hji => startFinally_other o hji (Nat.ne_of_lt hj)) ?_ ?_ (.inl (by rw [hself]))
    fun cb hcb => .inl (by rw [hself]; exact hcb)
  · rw [hself]
    exact ⟨rfl, rfl, rfl, rfl, rfl, id, id⟩
  · unfold St.kids
    rw [hself]
    exact List.subset_append_left _ _

theorem start (hi : i < s.nScopes) : Holds R s (callFinallyHandlers s i) := by
  unfold callFinallyHandlers
  split
  · exact .refl s
  · have htake : Holds R s (takeFinallyHandlers s i) :=
      .flag (x := { s.scopes i with finallyHandlers := [] }) ⟨[_], rfl⟩ rfl rfl
        ⟨rfl, rfl, rfl, rfl, rfl, id, id⟩ rfl rfl rfl
    exact htake.trans (startFinally (s := takeFinallyHandlers s i) hi _)

end Holds

theorem Act.holds (ha : Act c F L Never R s t) (h : Tree s) : Holds R s t := by
  cases ha with
  | mild hm => exact .mild hm
  | call hR => exact .call hR
  | @flag i =>
    exact .flag (x := { s.scopes i with cancelled := true }) ⟨[], (List.append_nil _).symm⟩ rfl rfl
      ⟨rfl, rfl, rfl, rfl, rfl, id, fun _ => rfl⟩ rfl rfl rfl
  | @close i =>
    exact .flag (x := { s.scopes i with closed := true }) ⟨[_], rfl⟩ rfl rfl
      ⟨rfl, rfl, rfl, rfl, rfl, fun _ => rfl, id⟩ rfl rfl rfl
  | @start i _ ha => exact .start (h.living i ha)
  | clear h | unlink h | free h => exact h.elim

theorem Acts.holds (ha : Acts c F L Never R s t) (h : Tree s) : Holds R s t := by
  induction ha with
  | refl => exact .refl s
  | tail hab hb ih => exact ih.trans (hb.holds (Acts.tree hab h))

theorem Holds.within (h : Holds R s t) (hT : Tree s) (hw : Within s.kids i j) : Within t.kids i j := by
  refine hw.mono fun p => ?_
  by_cases hp : p < s.nScopes
  · exact h.kids p hp
  · rw [show s.kids p = [] from (hT.beyond (Nat.le_of_not_lt hp)).scopes]
    exact List.nil_subset _

end PhpAsync.L2.Scopes
