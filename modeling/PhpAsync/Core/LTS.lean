/-!
# Labelled transition systems

A system is a set of initial states and a labelled step relation. `Run` is a
finite sequence of steps, `Reachable` the end of a run from an initial state.

* `Inductive.reachable`: a predicate that holds initially and is kept by every
  step holds in every reachable state.
* `Inductive.and`: the same for a predicate whose preservation needs an
  invariant that is already known.
* `restrict G`: the runs all of whose steps satisfy `G` (a condition on the
  label and the state before the step).
* `Simulates.reachable`: if every step is matched by a run of a second system,
  reachable states are mapped to reachable states.
* `exists_of_exec`, `exists_of_execG`, `exists_from`, `existsG_from`: a system given by
  a partial step function runs a list of labels by computation.
* `recorded`: the same system with a history beside the state, which the steps
  write and never read.
-/
namespace PhpAsync.Core

structure LTS (S L : Type) where
  init : S → Prop
  step : S → L → S → Prop

namespace LTS

variable {S L : Type}

inductive Run (M : LTS S L) : S → List L → S → Prop
  | nil (s : S) : Run M s [] s
  | cons {s s' s'' : S} {l : L} {ls : List L} (h : M.step s l s') (hr : Run M s' ls s'') :
      Run M s (l :: ls) s''

def Reachable (M : LTS S L) (s : S) : Prop := ∃ s₀ ls, M.init s₀ ∧ M.Run s₀ ls s

variable {G : S → L → Prop} {M : LTS S L} {P init : S → Prop} {f : S → L → Option S} {ls : List L} {s s' : S}

theorem Run.append {a b c : S} {ls' : List L} (h : M.Run a ls b) (h' : M.Run b ls' c) : M.Run a (ls ++ ls') c := by
  induction h with
  | nil => exact h'
  | cons hs _ ih => exact .cons hs (ih h')

theorem Reachable.run (h : M.Reachable s) (hr : M.Run s ls s') : M.Reachable s' := by
  obtain ⟨s₀, ls₀, hi, h₀⟩ := h
  exact ⟨s₀, ls₀ ++ ls, hi, h₀.append hr⟩

theorem Reachable.step {l : L} (h : M.Reachable s) (hs : M.step s l s') : M.Reachable s' := h.run (.cons hs (.nil _))

/-- What every step keeps, a run keeps. -/
theorem Run.keeps (hP : ∀ s l s', P s → M.step s l s' → P s') (h : M.Run s ls s') (h0 : P s) : P s' := by
  induction h with
  | nil => exact h0
  | cons hs _ ih => exact ih (hP _ _ _ h0 hs)

/-! ## Inductive invariants -/

structure Inductive (M : LTS S L) (P : S → Prop) : Prop where
  init : ∀ s, M.init s → P s
  step : ∀ s l s', P s → M.step s l s' → P s'

theorem Inductive.reachable (h : M.Inductive P) (s : S) (hr : M.Reachable s) : P s := by
  obtain ⟨s₀, ls, hi, hrun⟩ := hr
  exact hrun.keeps h.step (h.init s₀ hi)

/-- Adds `Q` to a known invariant `P`: `Q` has to be kept only by steps
between states that satisfy `P`. -/
theorem Inductive.and {Q : S → Prop} (h : M.Inductive P) (h0 : ∀ s, M.init s → Q s)
    (hs : ∀ s l s', P s → P s' → Q s → M.step s l s' → Q s') : M.Inductive (fun s => P s ∧ Q s) where
  init s hi := ⟨h.init s hi, h0 s hi⟩
  step s l s' hq hst := by
    have hp := h.step s l s' hq.1 hst
    exact ⟨hp, hs s l s' hq.1 hp hq.2 hst⟩

/-! ## Restricted runs -/

/-- The runs all of whose steps satisfy `G`. -/
def restrict (M : LTS S L) (G : S → L → Prop) : LTS S L where
  init := M.init
  step s l s' := G s l ∧ M.step s l s'

theorem Inductive.restrict (h : M.Inductive P) (G : S → L → Prop) : (M.restrict G).Inductive P where
  init := h.init
  step s l s' hp hs := h.step s l s' hp hs.2

theorem Run.of_restrict (h : (M.restrict G).Run s ls s') : M.Run s ls s' := by
  induction h with
  | nil => exact .nil _
  | cons hs _ ih => exact .cons hs.2 ih

theorem Reachable.of_restrict (h : (M.restrict G).Reachable s) : M.Reachable s := by
  obtain ⟨s₀, ls, hi, hr⟩ := h
  exact ⟨s₀, ls, hi, hr.of_restrict⟩

/-- Fewer conditions, more runs. -/
theorem Reachable.restrict_mono {G' : S → L → Prop} (h : (M.restrict G).Reachable s) (hG : ∀ s l, G s l → G' s l) :
    (M.restrict G').Reachable s := by
  obtain ⟨s₀, ls, hi, hr⟩ := h
  refine ⟨s₀, ls, hi, ?_⟩
  clear hi
  induction hr with
  | nil => exact .nil _
  | cons hs _ ih => exact .cons ⟨hG _ _ hs.1, hs.2⟩ ih

/-! ## Simulation -/

/-- `abs` maps initial states to initial states and every step to a run of
`N`, inside an invariant `P` of `M`. -/
structure Simulates {S' L' : Type} (M : LTS S L) (N : LTS S' L') (P : S → Prop)
    (abs : S → S') : Prop where
  inv : M.Inductive P
  init : ∀ s, M.init s → N.init (abs s)
  step : ∀ s l s', P s → M.step s l s' → ∃ ls, N.Run (abs s) ls (abs s')

theorem Simulates.reachable {S' L' : Type} {N : LTS S' L'} {abs : S → S'} (h : Simulates M N P abs) (s : S)
    (hr : M.Reachable s) : N.Reachable (abs s) := by
  have hind : M.Inductive (fun s => P s ∧ N.Reachable (abs s)) := by
    refine h.inv.and (fun s hi => ⟨abs s, [], h.init s hi, .nil _⟩) ?_
    intro s l s' hp _ hq hs
    obtain ⟨ls, hrun⟩ := h.step s l s' hp hs
    exact hq.run hrun
  exact (hind.reachable s hr).2

/-! ## Systems given by a function -/

def ofFn (init : S → Prop) (f : S → L → Option S) : LTS S L where
  init := init
  step s l s' := f s l = some s'

def exec (f : S → L → Option S) : S → List L → Option S
  | s, [] => some s
  | s, l :: ls => (f s l).bind fun s' => exec f s' ls

theorem run_of_exec (init : S → Prop) (f : S → L → Option S) :
    ∀ (ls : List L) (s s' : S), exec f s ls = some s' → (ofFn init f).Run s ls s'
  | [], s, s', h => by
    simp only [exec, Option.some.injEq] at h; subst h; exact .nil _
  | l :: ls, s, s', h => by
    simp only [exec, Option.bind_eq_some_iff] at h
    obtain ⟨s₁, h₁, h₂⟩ := h
    exact .cons h₁ (run_of_exec init f ls s₁ s' h₂)

theorem reachable_of_exec (hi : init s) (h : exec f s ls = some s') : (ofFn init f).Reachable s' :=
  ⟨s, ls, hi, run_of_exec init f ls s s' h⟩

/-- A run given by its labels, and a decidable property of the state it ends in. -/
theorem exists_of_exec (hi : init s) (ls : List L) [DecidablePred P] (h : (exec f s ls).any (P ·) = true) :
    ∃ s', (ofFn init f).Reachable s' ∧ P s' := by
  obtain ⟨s', hs, hp⟩ := (Option.any_eq_true _ _).1 h
  exact ⟨s', reachable_of_exec hi hs, of_decide_eq_true hp⟩

/-- The same with one more step, for a fact about both of its ends. -/
theorem exists_step_of_exec (hi : init s) (ls : List L) (l : L) {P : S → S → Prop} [∀ s t, Decidable (P s t)]
    (h : ((exec f s ls).any fun s' => (f s' l).any (P s' ·)) = true) :
    ∃ s' s'', (ofFn init f).Reachable s' ∧ f s' l = some s'' ∧ P s' s'' := by
  obtain ⟨s', hs, h⟩ := (Option.any_eq_true _ _).1 h
  obtain ⟨s'', hs', hp⟩ := (Option.any_eq_true _ _).1 h
  exact ⟨s', s'', reachable_of_exec hi hs, hs', of_decide_eq_true hp⟩

/-- The same with a second list of labels, for a fact about a state and a later one. -/
theorem exists_run_of_exec (hi : init s) (ls ls' : List L) {P : S → S → Prop} [∀ s t, Decidable (P s t)]
    (h : ((exec f s ls).any fun s' => (exec f s' ls').any (P s' ·)) = true) :
    ∃ s' s'', (ofFn init f).Reachable s' ∧ (ofFn init f).Run s' ls' s'' ∧ P s' s'' := by
  obtain ⟨s', hs, h⟩ := (Option.any_eq_true _ _).1 h
  obtain ⟨s'', hs', hp⟩ := (Option.any_eq_true _ _).1 h
  exact ⟨s', s'', reachable_of_exec hi hs, run_of_exec init f ls' s' s'' hs', of_decide_eq_true hp⟩

/-- `exec` that also checks the condition `G` before each step. -/
def execG (G : S → L → Prop) [∀ s l, Decidable (G s l)] (f : S → L → Option S) :
    S → List L → Option S
  | s, [] => some s
  | s, l :: ls => if G s l then (f s l).bind fun s' => execG G f s' ls else none

theorem run_of_execG (G : S → L → Prop) [∀ s l, Decidable (G s l)] (init : S → Prop)
    (f : S → L → Option S) :
    ∀ (ls : List L) (s s' : S), execG G f s ls = some s' →
      ((ofFn init f).restrict G).Run s ls s'
  | [], s, s', h => by
    simp only [execG, Option.some.injEq] at h; subst h; exact .nil _
  | l :: ls, s, s', h => by
    simp only [execG] at h
    split at h
    · rename_i hc
      simp only [Option.bind_eq_some_iff] at h
      obtain ⟨s₁, h₁, h₂⟩ := h
      exact .cons ⟨hc, h₁⟩ (run_of_execG G init f ls s₁ s' h₂)
    · cases h

theorem exists_of_execG [∀ s l, Decidable (G s l)] (hi : init s) (ls : List L) [DecidablePred P]
    (h : (execG G f s ls).any (P ·) = true) : ∃ s', ((ofFn init f).restrict G).Reachable s' ∧ P s' := by
  obtain ⟨s', hs, hp⟩ := (Option.any_eq_true _ _).1 h
  exact ⟨s', ⟨s, ls, hi, run_of_execG G init f ls s s' hs⟩, of_decide_eq_true hp⟩

theorem exists_run_of_execG [∀ s l, Decidable (G s l)] (hi : init s) (ls ls' : List L) {P : S → S → Prop}
    [∀ s t, Decidable (P s t)] (h : ((execG G f s ls).any fun s' => (execG G f s' ls').any (P s' ·)) = true) :
    ∃ s' s'', ((ofFn init f).restrict G).Reachable s' ∧ ((ofFn init f).restrict G).Run s' ls' s'' ∧ P s' s'' := by
  obtain ⟨s', hs, h⟩ := (Option.any_eq_true _ _).1 h
  obtain ⟨s'', hs', hp⟩ := (Option.any_eq_true _ _).1 h
  exact ⟨s', s'', ⟨s, ls, hi, run_of_execG G init f ls s s' hs⟩, run_of_execG G init f ls' s' s'' hs',
    of_decide_eq_true hp⟩

/-- A run from the one initial state. -/
theorem exists_from (s₀ : S) (ls : List L) [DecidablePred P] (h : (exec f s₀ ls).any (P ·) = true) :
    ∃ s, (ofFn (· = s₀) f).Reachable s ∧ P s :=
  exists_of_exec (show (· = s₀) s₀ from rfl) ls h

theorem existsG_from (s₀ : S) (ls : List L) [∀ s l, Decidable (G s l)] [DecidablePred P]
    (h : (execG G f s₀ ls).any (P ·) = true) : ∃ s, ((ofFn (· = s₀) f).restrict G).Reachable s ∧ P s :=
  exists_of_execG (show (· = s₀) s₀ from rfl) ls h

/-! ## Histories -/

/-- `f` with a history: the step from `s` to `s'` under `l` turns `h` into
`write s l s' h`. -/
def recorded {H : Type} (f : S → L → Option S) (write : S → L → S → H → H) (p : S × H) (l : L) :
    Option (S × H) :=
  (f p.1 l).map fun s' => (s', write p.1 l s' p.2)

theorem recorded_step {H : Type} {write : S → L → S → H → H} {p q : S × H} {l : L} (h : recorded f write p l = some q) :
    f p.1 l = some q.1 ∧ q.2 = write p.1 l q.1 p.2 := by
  obtain ⟨s', hs, rfl⟩ := Option.map_eq_some_iff.1 h
  exact ⟨hs, rfl⟩

end LTS
end PhpAsync.Core
