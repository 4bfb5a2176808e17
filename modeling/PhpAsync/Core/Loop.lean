/-!
# Loops

`Loop.run f n s` repeats the body `f` from `s` until it stops (`none`), at most
`n` times.

* `run_induct`: what the body keeps, the loop keeps.
* `run_stops`: if the body decreases a measure that is at most `n`, the loop ends
  because the body has stopped, and not because the bound is reached.
-/
namespace PhpAsync.Core.Loop

variable {σ : Type}

def run (f : σ → Option σ) : Nat → σ → σ
  | 0, s => s
  | n + 1, s => match f s with
    | none => s
    | some t => run f n t

variable {f : σ → Option σ}

theorem run_succ_some {n : Nat} {s t : σ} (h : f s = some t) : run f (n + 1) s = run f n t := by
  rw [run, h]

theorem run_none {s : σ} (h : f s = none) : ∀ n, run f n s = s
  | 0 => rfl
  | n + 1 => by rw [run, h]

/-- What the body keeps, the loop keeps. -/
theorem run_induct {P : σ → Prop} (h : ∀ s t, f s = some t → P s → P t) (n : Nat) (s : σ) (hs : P s) :
    P (run f n s) := by
  induction n generalizing s with
  | zero => exact hs
  | succ n ih => grind [run]

/-- The body commutes with `g`, and so does the loop. -/
theorem run_map {g : σ → σ} (h : ∀ s, f (g s) = (f s).map g) (n : Nat) (s : σ) : run f n (g s) = g (run f n s) := by
  induction n generalizing s with
  | zero => rfl
  | succ n ih => grind [run]

/-- A measure that the body decreases, inside an invariant, bounds the number of rounds. -/
theorem run_stops {P : σ → Prop} (hP : ∀ s t, f s = some t → P s → P t) (μ : σ → Nat)
    (h : ∀ s t, P s → f s = some t → μ t < μ s) (n : Nat) (s : σ) (hs : P s) (hn : μ s ≤ n) : f (run f n s) = none := by
  induction n generalizing s with
  | zero =>
    cases hf : f s with
    | none => rw [run]; exact hf
    | some t =>
      have := h s t hs hf
      omega
  | succ n ih => grind [run]

end PhpAsync.Core.Loop
