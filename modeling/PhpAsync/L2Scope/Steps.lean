import PhpAsync.L2Scope.Ending

/-!
# Steps of the tree of scopes

* `step_move`: what a step can do.
* `tree_inductive`: the tree is a forest in every reachable state.
-/
namespace PhpAsync.L2.Scopes

open PhpAsync.Core

variable {E : Type}

/-! ## What a step can do -/

/-- The finally handler that a step registers at `i`. -/
def registered (l : Lbl E) (i : Nat) : List Nat :=
  match l with
  | .finally_ j h => if j = i then [h] else []
  | _ => []

def Lbl.quiet : Lbl E → Bool
  | .newScope .. | .spawn _ | .groupFinally .. | .cancel .. | .cancelCoroutine .. | .destroy _
  | .release _ | .finish .. | .finallyEnd .. | .groupErrors .. => false
  | _ => true

/-- A step that neither starts, ends nor cancels anything. -/
structure Quiet (l : Lbl E) (s t : St E) : Prop where
  tree : Tree s → Tree t
  nScopes : t.nScopes = s.nScopes
  kids : t.kids = s.kids
  members : ∀ i, (t.scopes i).coroutines = (s.scopes i).coroutines
  closed : ∀ i, (t.scopes i).closed = (s.scopes i).closed
  cancelled : ∀ i, (t.scopes i).cancelled = (s.scopes i).cancelled
  finals : ∀ i, (t.scopes i).finallyHandlers = (s.scopes i).finallyHandlers ++ registered l i
  nCoroutines : t.nCoroutines = s.nCoroutines
  contexts : t.contexts = s.contexts
  finished : ∀ d, (t.coroutines d).finished = (s.coroutines d).finished
  touched : ∀ d, (s.coroutines d).touched = true → (t.coroutines d).touched = true
  calls : t.calls = s.calls
  log : ∃ l, t.log = s.log ++ l ∧ ∀ x ∈ l, ∃ a i e left, x = .resumed a i (some e) left

section Quiet

variable {s : St E} {l : Lbl E}

theorem Quiet.setCoroutine {d : Nat} {x : Coroutine} (hl : ∀ i, registered l i = [])
    (hd : d < s.nCoroutines) (h₁ : x.scope = (s.coroutines d).scope)
    (h₂ : x.finished = (s.coroutines d).finished)
    (h₃ : (s.coroutines d).touched = true → x.touched = true) :
    Quiet l s (s.setCoroutine d x) := by
  refine ⟨fun h => h.setCoroutine hd fun _ _ => h₁, rfl, rfl, fun _ => rfl, fun _ => rfl, fun _ => rfl,
    fun i => by rw [hl i, List.append_nil]; rfl, rfl, rfl, setCoroutine_field Coroutine.finished h₂, fun b hb => ?_, rfl,
    ⟨[], (List.append_nil _).symm, by simp⟩⟩
  by_cases hbd : b = d
  · rw [hbd, setCoroutine_self]
    exact h₃ (hbd ▸ hb)
  · rw [setCoroutine_ne _ _ _ hbd]
    exact hb

theorem Quiet.setScope {i : Nat} {x : Scope} (ha : (s.scopes i).alive = true)
    (h₁ : x.alive = (s.scopes i).alive) (h₂ : x.parent = (s.scopes i).parent)
    (h₃ : x.scopes = (s.scopes i).scopes) (h₄ : x.coroutines = (s.scopes i).coroutines)
    (h₅ : x.active + x.zombies = (s.scopes i).active + (s.scopes i).zombies)
    (h₆ : x.closed = (s.scopes i).closed) (h₇ : x.cancelled = (s.scopes i).cancelled)
    (h₈ : x.finallyHandlers = (s.scopes i).finallyHandlers ++ registered l i)
    (hl : ∀ j, j ≠ i → registered l j = []) : Quiet l s (s.setScope i x) := by
  refine ⟨fun h => h.mark ha h₁ h₂ h₃ h₄ h₅, rfl, setScope_kids h₃, setScope_field _ h₄,
    setScope_field _ h₆, setScope_field _ h₇, fun j => ?_, rfl, rfl, fun _ => rfl, fun _ h => h, rfl,
    ⟨[], (List.append_nil _).symm, by simp⟩⟩
  by_cases hj : j = i
  · subst hj
    rw [setScope_self, h₈]
  · rw [setScope_ne _ _ _ hj, hl j hj, List.append_nil]

theorem Quiet.refl (hl : ∀ i, registered l i = []) : Quiet l s s :=
  ⟨id, rfl, rfl, fun _ => rfl, fun _ => rfl, fun _ => rfl, fun i => by rw [hl i, List.append_nil],
    rfl, rfl, fun _ => rfl, fun _ h => h, rfl, ⟨[], (List.append_nil _).symm, by simp⟩⟩

theorem quiet_resume (a i : Nat) (e : E) : Quiet (.interrupt a i e) s (resume s i a (some e)) := by
  have hs : Soft s (s.setScope i { s.scopes i with
      callbacks := (s.scopes i).callbacks.filter fun cb => !cb.isAwaiter a }) :=
    .setScope ⟨rfl, rfl, rfl, rfl, rfl, rfl, rfl, rfl, rfl, List.filter_sublist.subset, rfl⟩
  exact ⟨fun h => (h.soft hs).congr rfl rfl rfl rfl, rfl, hs.kids, fun j => (hs.scope j).coroutines,
    fun j => (hs.scope j).closed, fun j => (hs.scope j).cancelled,
    fun j => (hs.scope j).finallyHandlers.trans (List.append_nil _).symm, rfl, rfl, fun _ => rfl, fun _ h => h, rfl,
    ⟨[_], rfl, fun x hx => ⟨a, i, e, _, List.mem_singleton.1 hx⟩⟩⟩

end Quiet

inductive Move (c : Env E) (s : St E) : Lbl E → St E → Prop
  | quiet {l : Lbl E} {t : St E} (hl : l.quiet = true) (h : Quiet l s t) : Move c s l t
  | newScope {parent : Option Nat} {object : Bool}
      (ha : ∀ p, parent = some p → (s.scopes p).alive = true) :
      Move c s (.newScope parent object) (newScope s parent object)
  | spawn {i : Nat} (ha : (s.scopes i).alive = true) : Move c s (.spawn i) (spawn s i)
  | groupFinally {g i : Nat} (ha : (s.scopes i).alive = true) :
      Move c s (.groupFinally g i) (startFinally s (.group g) i)
  | cancel {i : Nat} {e : Option E} {safely : Bool} (ha : (s.scopes i).alive = true) :
      Move c s (.cancel i e safely) (cancel c safely (s.nScopes + 1) s i e)
  | cancelCoroutine {d : Nat} {safely : Bool} (hd : d < s.nCoroutines) :
      Move c s (.cancelCoroutine d safely) (cancelCoroutine c safely s d)
  | destroy {i : Nat} (ha : (s.scopes i).alive = true) : Move c s (.destroy i) (destroy c s i)
  | release {i : Nat} (ha : (s.scopes i).alive = true) : Move c s (.release i) (release c s i)
  | finish {d i : Nat} {e : Option E} {scheduler : Bool} (hs : (s.coroutines d).scope = some i)
      (ha : (s.scopes i).alive = true) (hf : (s.coroutines d).finished = false) :
      Move c s (.finish d e scheduler) (finalize c s d i e scheduler)
  | finallyEnd {k : Nat} {x : Context} {e : Option E} {scheduler : Bool} (hx : s.contexts[k]? = some x)
      (ha : (s.scopes x.scope).alive = true) :
      Move c s (.finallyEnd k e scheduler)
        (finallyHandlersDtor c (dropContext s k) x e scheduler)
  | groupErrors {i : Nat} {e : E} {scheduler : Bool} (ha : (s.scopes i).alive = true) :
      Move c s (.groupErrors i e scheduler) (catch_ c scheduler false none (i + 1) s i none e).1

theorem step_move {c : Env E} {s t : St E} {l : Lbl E} (hst : step c s l = some t) : Move c s l t := by
  have hnil : ∀ {l : Lbl E}, (∀ i h, l ≠ .finally_ i h) → ∀ i, registered l i = [] := by
    intro l hl i
    unfold registered
    split
    · exact absurd rfl (hl _ _)
    · rfl
  cases l with
  | newScope parent object =>
    obtain ⟨ha, ⟨⟩⟩ := Option.ite_none_right_eq_some.1 hst
    refine .newScope fun p hp => ?_
    subst hp
    exact ha
  | spawn i =>
    obtain ⟨ha, ⟨⟩⟩ := Option.ite_none_right_eq_some.1 hst
    exact .spawn ha.1
  | switch d =>
    cases hst
    exact .quiet rfl ⟨fun h => h.congr rfl rfl rfl rfl, rfl, rfl, fun _ => rfl, fun _ => rfl, fun _ => rfl,
      fun _ => (List.append_nil _).symm, rfl, rfl, fun _ => rfl, fun _ h => h, rfl, ⟨[], (List.append_nil _).symm, by simp⟩⟩
  | begin_ d =>
    obtain ⟨ha, ⟨⟩⟩ := Option.ite_none_right_eq_some.1 hst
    exact .quiet rfl (.setCoroutine (hnil (by simp)) ha.1 rfl rfl id)
  | protect d on =>
    obtain ⟨ha, ⟨⟩⟩ := Option.ite_none_right_eq_some.1 hst
    refine .quiet rfl ?_
    unfold protect
    dsimp only
    split
    · exact .setCoroutine (hnil (by simp)) ha.1 rfl rfl id
    · split
      · exact .setCoroutine (hnil (by simp)) ha.1 rfl rfl fun _ => by simp [Coroutine.touched]
      · exact .setCoroutine (hnil (by simp)) ha.1 rfl rfl id
  | cancel i e safely =>
    obtain ⟨ha, ⟨⟩⟩ := Option.ite_none_right_eq_some.1 hst
    exact .cancel ha
  | cancelCoroutine d safely =>
    obtain ⟨ha, ⟨⟩⟩ := Option.ite_none_right_eq_some.1 hst
    exact .cancelCoroutine ha
  | destroy i =>
    obtain ⟨ha, ⟨⟩⟩ := Option.ite_none_right_eq_some.1 hst
    exact .destroy ha.1
  | addRef i =>
    obtain ⟨ha, ⟨⟩⟩ := Option.ite_none_right_eq_some.1 hst
    exact .quiet rfl (.setScope ha rfl rfl rfl rfl rfl rfl rfl (List.append_nil _).symm fun _ _ => rfl)
  | release i =>
    obtain ⟨ha, ⟨⟩⟩ := Option.ite_none_right_eq_some.1 hst
    exact .release ha
  | configure i handler childHandler safely pinned =>
    obtain ⟨ha, ⟨⟩⟩ := Option.ite_none_right_eq_some.1 hst
    exact .quiet rfl (.setScope ha rfl rfl rfl rfl rfl rfl rfl (List.append_nil _).symm fun _ _ => rfl)
  | finally_ i h =>
    obtain ⟨ha, ⟨⟩⟩ := Option.ite_none_right_eq_some.1 hst
    refine .quiet rfl (.setScope ha rfl rfl rfl rfl rfl rfl rfl ?_ fun j hj => if_neg (Ne.symm hj))
    show (s.scopes i).finallyHandlers ++ [h] = (s.scopes i).finallyHandlers ++ if i = i then [h] else []
    rw [if_pos rfl]
  | finallyOf d h =>
    obtain ⟨ha, ⟨⟩⟩ := Option.ite_none_right_eq_some.1 hst
    exact .quiet rfl (.setCoroutine (hnil (by simp)) ha.1 rfl rfl id)
  | groupFinally g i =>
    obtain ⟨ha, ⟨⟩⟩ := Option.ite_none_right_eq_some.1 hst
    exact .groupFinally ha
  | subscribe i marks =>
    obtain ⟨ha, ⟨⟩⟩ := Option.ite_none_right_eq_some.1 hst
    exact .quiet rfl (.setScope ha rfl rfl rfl rfl rfl rfl rfl (List.append_nil _).symm fun _ _ => rfl)
  | unsubscribe i marks =>
    obtain ⟨ha, ⟨⟩⟩ := Option.ite_none_right_eq_some.1 hst
    exact .quiet rfl (.setScope ha rfl rfl rfl rfl rfl rfl rfl (List.append_nil _).symm fun _ _ => rfl)
  | await a i handler =>
    obtain ⟨ha, ⟨⟩⟩ := Option.ite_none_right_eq_some.1 hst
    refine .quiet rfl ?_
    unfold awaitAfterCancellation
    dsimp only
    split
    · exact .refl (hnil (by simp))
    · split
      · exact .refl (hnil (by simp))
      · split
        · exact .refl (hnil (by simp))
        · exact .setScope ha.1 rfl rfl rfl rfl rfl rfl rfl (List.append_nil _).symm fun _ _ => rfl
  | interrupt a i e =>
    obtain ⟨ha, ⟨⟩⟩ := Option.ite_none_right_eq_some.1 hst
    exact .quiet rfl (quiet_resume a i e)
  | finish d e scheduler =>
    simp only [step] at hst
    split at hst
    · rename_i i hs
      obtain ⟨ha, ⟨⟩⟩ := Option.ite_none_right_eq_some.1 hst
      exact .finish hs ha.2 ha.1
    · cases hst
  | finallyEnd k e scheduler =>
    simp only [step] at hst
    split at hst
    · rename_i x hx
      obtain ⟨ha, ⟨⟩⟩ := Option.ite_none_right_eq_some.1 hst
      exact .finallyEnd hx ha
    · cases hst
  | groupErrors i e scheduler =>
    obtain ⟨ha, ⟨⟩⟩ := Option.ite_none_right_eq_some.1 hst
    exact .groupErrors ha

/-- **The tree.** In every reachable state the scopes are a forest and every coroutine is
in the vector of its scope only. -/
theorem tree_inductive (c : Env E) : (lts c).Inductive Tree where
  init s hs := by
    rw [show s = start from hs]
    exact tree_start
  step s l t h hst := by
    cases step_move hst with
    | quiet _ hq => exact hq.tree h
    | newScope ha => exact h.newScope ha _
    | spawn ha => exact h.spawn ha
    | groupFinally ha => exact (Grows.startFinally (F := Never) h ha _).tree
    | cancel ha => exact (acts_cancel _ _ h ha _).tree h
    | cancelCoroutine hd => exact h.soft (soft_cancelCoroutine _ hd)
    | destroy ha => exact Acts.tree (acts_destroy (c := c) h ha) h
    | release ha => exact Acts.tree (acts_release (c := c) h _) h
    | finish hs ha => exact h.finalize ha hs _ _
    | finallyEnd hx ha => exact (h.dropContext _).finallyHandlersDtor _ ha _ _
    | groupErrors ha => exact (grows_catch h ha _ _ _ _ _).tree

end PhpAsync.L2.Scopes
