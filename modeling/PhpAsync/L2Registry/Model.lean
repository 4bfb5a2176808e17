import Mathlib.Logic.Function.Basic
import Mathlib.Tactic.Simps.Basic
import PhpAsync.Core.LTS
import PhpAsync.Core.SwapRemove
import PhpAsync.L2Coroutine.Lifecycle

/-!
# The registry of coroutines and its counters

Model of what is counted about coroutines: the table of all coroutines, the global count
of the active ones, and for each scope its vector of coroutines with the counters of the
active ones and of the zombies. They are changed by `spawn`, `async_coroutine_cancel`,
`async_coroutine_finalize` and the destruction of a coroutine object.

The queue holds the entries of coroutines that have not started; those of the others do
not matter here. Hooks (of the scope, of a spawn strategy) are calls that succeed or not.
They get the coroutine: they may cancel it, and they may keep a reference to it, so that its
object lives on (`kept`). What they do to others are steps of their own.
-/
namespace PhpAsync.L2.Registry

open PhpAsync.Core
open PhpAsync.L2.Coroutine (Status)

structure Co where
  scope : Option Nat
  status : Status
  started : Bool
  finished : Bool
  cancelled : Bool
  zombie : Bool
  guarded : Bool
  kept : Bool
  deriving DecidableEq, Repr

/-- mirrors scope.h:43-62 -/
structure Scope where
  coroutines : List Nat
  active : Nat
  zombies : Nat
  closed : Bool
  deriving DecidableEq, Repr

/-- `registry` are the keys of `ASYNC_G(coroutines)`, `count` is
`ZEND_ASYNC_ACTIVE_COROUTINE_COUNT`; `made` coroutines have been made so far. -/
structure St where
  co : Nat → Co
  made : Nat
  scopes : Nat → Scope
  registry : List Nat
  count : Nat
  queue : List Nat
  current : Option Nat

@[simps -fullyApplied]
def St.setCo (s : St) (c : Nat) (x : Co) : St := { s with co := Function.update s.co c x }

@[simps -fullyApplied]
def St.setScope (s : St) (i : Nat) (x : Scope) : St := { s with scopes := Function.update s.scopes i x }

/-! ## Scopes -/

/-- mirrors scope.c:33-56 -/
def addCoroutine (s : St) (i c : Nat) : St :=
  let x := s.scopes i
  let y := { x with coroutines := x.coroutines ++ [c] }
  (s.setCo c { s.co c with scope := some i }).setScope i
    (if (s.co c).zombie then { y with zombies := x.zombies + 1 } else { y with active := x.active + 1 })

/-- mirrors scope.c:58-74 -/
def removeCoroutine (s : St) (i c : Nat) : St :=
  let x := s.scopes i
  if c ∈ x.coroutines then
    let y := { x with coroutines := swapRemove x.coroutines (x.coroutines.idxOf c) }
    s.setScope i
      (if (s.co c).zombie = false ∧ 0 < x.active then { y with active := x.active - 1 }
      else { y with zombies := x.zombies - 1 })
  else s

/-- `async_scope_notify_coroutine_finished`, and the coroutine forgets its scope.
mirrors scope.c:896-906 -/
def leaveScope (s : St) (c : Nat) : St :=
  match (s.co c).scope with
  | some i => (removeCoroutine s i c).setCo c { s.co c with scope := none }
  | none => s

/-- mirrors scope.c:908-923 -/
def markZombie (s : St) (c : Nat) : St :=
  if (s.co c).zombie then s
  else
    let t := s.setCo c { s.co c with zombie := true }
    match (s.co c).scope with
    | some i =>
      let x := s.scopes i
      if 0 < x.active then t.setScope i { x with active := x.active - 1, zombies := x.zombies + 1 } else t
    | none => t

/-! ## Coroutines -/

/-- `coroutine_dispose`: the runtime gives its reference back, and the object is destroyed
unless somebody has kept it.
mirrors coroutine.c:164-209, 1096-1101 -/
def dispose (s : St) (c : Nat) : St :=
  if (s.co c).kept then s
  else
    let t := leaveScope s c
    t.setCo c { t.co c with status := .noStatus }

/-- mirrors coroutine.c:591-770 -/
def finalize (s : St) (c : Nat) : St :=
  let t := leaveScope (s.setCo c { s.co c with finished := true }) c
  { t.setCo c { t.co c with status := .noStatus } with
    registry := t.registry.erase c
    count := if (s.co c).zombie then t.count else t.count - 1 }

/-- mirrors coroutine.c:449-484 -/
def executeIgnored (s : St) (c : Nat) : St :=
  if (s.co c).cancelled then dispose (finalize s c) c else dispose s c

/-- `ASYNC_G(coroutines)` gets a new key, and the count goes up. -/
def register (s : St) (c : Nat) : St :=
  { s with registry := s.registry ++ [c], count := s.count + 1 }

/-- mirrors scheduler.c:1430-1513 -/
def enqueue (s : St) (c : Nat) : St :=
  if (s.co c).status.inQueue then s
  else
    let t := { s with queue := s.queue ++ [c] }.setCo c { s.co c with status := .queued }
    if (s.co c).started = false ∧ c ∉ s.registry then
      if (s.co c).scope = none then t.setCo c { t.co c with status := .noStatus } else register t c
    else t

/-- mirrors coroutine.c:948-972 -/
def cancelUnstarted (s : St) (c : Nat) : St :=
  let t := enqueue (s.setCo c { s.co c with cancelled := true }) c
  t.setCo c { t.co c with status := .ignored }

/-- mirrors coroutine.c:866-999 -/
def cancel (s : St) (c : Nat) (safely : Bool) : St :=
  let x := s.co c
  if x.finished then s
  else if s.current = some c then s.setCo c { x with cancelled := true }
  else if x.guarded then s
  else if x.started = false then cancelUnstarted s c
  else if safely then
    let t := markZombie (s.setCo c { x with cancelled := true }) c
    { t with count := t.count - 1 }
  else s.setCo c { x with cancelled := true }

/-! ## `spawn()` -/

/-- What the hooks called so far have done to the coroutine. -/
structure Hook where
  cancels : Bool
  keeps : Bool
  deriving DecidableEq, Repr

/-- How `spawn()` ends. -/
inductive Exit where
  /-- no coroutine object, or the scope's hook refuses it -/
  | refused
  /-- `beforeCoroutineEnqueue` of the spawn strategy fails -/
  | beforeHook (h : Hook)
  | queueFull (h : Hook)
  /-- the key cannot be added: no memory, or `beforeCoroutineEnqueue` has cancelled the
  coroutine, which has added it -/
  | registryFull (h : Hook)
  /-- the scope's `after_coroutine_enqueue` or the strategy's `afterCoroutineEnqueue` fails -/
  | afterHook (h : Hook)
  | spawned
  deriving DecidableEq, Repr

/-- A new coroutine object, in its scope.
mirrors coroutine.c:396-422 -/
def newCoroutine (s : St) (i : Nat) (kept : Bool) : St :=
  addCoroutine ({ s with made := s.made + 1 }.setCo s.made
    ⟨none, .noStatus, false, false, false, false, false, kept⟩) i s.made

def push (s : St) (front : Bool) (c : Nat) : St :=
  { s with queue := if front then c :: s.queue else s.queue ++ [c] }.setCo c { s.co c with status := .queued }

def ignore (s : St) (c : Nat) : St := s.setCo c { s.co c with status := .ignored }

/-- The coroutine is new: it is not the current one, not protected and not started. -/
def runHook (s : St) (c : Nat) (h : Hook) : St := if h.cancels then cancelUnstarted s c else s

/-- mirrors async_API.c:61-207 -/
def spawn (s : St) (i : Nat) (front : Bool) (x : Exit) : St :=
  let c := s.made
  if (s.scopes i).closed then s
  else
    match x with
    | .refused => s
    | .beforeHook h => dispose (runHook (newCoroutine s i h.keeps) c h) c
    | .queueFull h =>
      let t := runHook (newCoroutine s i h.keeps) c h
      dispose (t.setCo c { t.co c with status := .queued }) c
    | .registryFull h => ignore (push (runHook (newCoroutine s i h.keeps) c h) front c) c
    | .afterHook h => ignore (runHook (register (push (newCoroutine s i h.keeps) front c) c) c h) c
    | .spawned => register (push (newCoroutine s i false) front c) c

/-! ## Runs -/

inductive Lbl where
  | spawn (i : Nat) (front : Bool) (x : Exit)
  /-- the scheduler takes the first entry of the queue -/
  | next
  | finish (c : Nat)
  | cancel (c : Nat) (safely : Bool)
  | protect (c : Nat) (on : Bool)
  | switch (c : Option Nat)
  | close (i : Nat)
  deriving DecidableEq, Repr

/-- Code that has a coroutine holds an object that was made and lives. -/
def step (s : St) : Lbl → Option St
  | .spawn i front x => some (spawn s i front x)
  | .next =>
    match s.queue with
    | [] => none
    | c :: q =>
      let t := { s with queue := q }
      if (s.co c).status = .ignored then some (executeIgnored t c)
      else some (t.setCo c { s.co c with started := true, status := .result })
  | .finish c =>
    if (s.co c).started ∧ (s.co c).finished = false then some (finalize s c) else none
  | .cancel c safely => if (s.co c).scope.isSome then some (cancel s c safely) else none
  | .protect c on => if (s.co c).started then some (s.setCo c { s.co c with guarded := on }) else none
  | .switch c => some { s with current := c }
  | .close i => some (s.setScope i { s.scopes i with closed := true })

def start : St where
  co _ := ⟨none, .noStatus, false, false, false, false, false, false⟩
  made := 0
  scopes _ := ⟨[], 0, 0, false⟩
  registry := []
  count := 0
  queue := []
  current := none

def Init (s : St) : Prop := s = start

def lts : LTS St Lbl := LTS.ofFn Init step

end PhpAsync.L2.Registry
