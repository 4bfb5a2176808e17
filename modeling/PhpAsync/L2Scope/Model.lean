import Mathlib.Tactic.Simps.Basic
import PhpAsync.Core.LTS
import PhpAsync.Core.Forest

/-!
# Scopes

The tree of scopes with the coroutines in them: scope.c, and of coroutine.c what an end
and a cancellation of a coroutine do to its scope. A scope is a record of its parent, the
vectors `scopes` and `coroutines`, the counters, flags, handlers and the callbacks on its
event; scopes and coroutines are numbered as they are made.

PHP code that the runtime calls in the middle of an operation (exception handlers, the
error handler of `awaitAfterCancellation`) is a function of the environment that returns
or throws, indexed by the number of calls before it. The callbacks of other subscribers
either mark an exception as handled or do not.

Two histories are written and never read: `calls` (the handlers called, with the
coroutine they were told) and `log` (what was closed, resumed, notified and started). A
closing and a resumption keep the coroutines that were unfinished at that moment.
-/
namespace PhpAsync.L2.Scopes

open PhpAsync.Core
open Function (update update_of_ne update_self)

variable {E : Type}

/-- What the runtime is given: an answer is the exception thrown, if any. -/
structure Env (E : Type) where
  /-- an exception handler, by call, scope and whether it is the one for child scopes -/
  handler : Nat → Nat → Bool → E → Option E
  /-- the error handler of an awaiter -/
  onError : Nat → Nat → E → Option E
  /-- `zend_exception_merge` -/
  merge : E → E → E
  /-- "Scope was cancelled" -/
  cancellation : E

/-- A callback on the event of a scope: `callback_resolve_when_zombie_completed` for the
coroutine `a`, or another. -/
inductive Callback where
  | awaiter (a : Nat) (handler : Bool)
  | other (marks : Bool)
  deriving DecidableEq

def Callback.isAwaiter (a : Nat) : Callback → Bool
  | .awaiter b _ => b == a
  | .other _ => false

/-- The union of `_finally_handlers_context_s`.
mirrors coroutine.h:71-85 -/
inductive Owner where
  | coroutine (d : Nat)
  | scope (i : Nat)
  | group (g : Nat)
  deriving DecidableEq

structure Context where
  owner : Owner
  scope : Nat
  deriving DecidableEq

/-- mirrors scope.h:36-55 -/
structure Scope where
  alive : Bool := false
  parent : Option Nat := none
  scopes : List Nat := []
  coroutines : List Nat := []
  active : Nat := 0
  zombies : Nat := 0
  /-- `scope_object` is there -/
  object : Bool := false
  /-- `DISPOSE_SAFELY` -/
  safely : Bool := false
  pinned : Bool := false
  closed : Bool := false
  cancelled : Bool := false
  disposing : Bool := false
  /-- `EXCEPTION_HANDLED` of the event -/
  handled : Bool := false
  handler : Bool := false
  childHandler : Bool := false
  finallyHandlers : List Nat := []
  callbacks : List Callback := []
  refs : Nat := 0

structure Coroutine where
  scope : Option Nat := none
  started : Bool := false
  finished : Bool := false
  cancelled : Bool := false
  zombie : Bool := false
  protected_ : Bool := false
  deferred : Bool := false
  finallyHandlers : List Nat := []

/-- A call of an exception handler. -/
structure Call (E : Type) where
  scope : Nat
  child : Bool
  told : Owner
  exception : E

inductive Event (E : Type) where
  | closed (i : Nat) (left : List Nat)
  | resumed (a i : Nat) (error : Option E) (left : List Nat)
  | notified (i : Nat) (cb : Callback) (error : Option E)
  | started (i : Nat) (handlers : List Nat)
  deriving DecidableEq

structure St (E : Type) where
  scopes : Nat → Scope
  nScopes : Nat
  coroutines : Nat → Coroutine
  nCoroutines : Nat
  /-- finally handlers on their way -/
  contexts : List Context
  /-- `ZEND_ASYNC_CURRENT_COROUTINE`, unless it is waiting -/
  current : Option Nat
  calls : List (Call E)
  log : List (Event E)

def start : St E := ⟨fun _ => {}, 0, fun _ => {}, 0, [], none, [], []⟩

/-! ## Fields -/

@[simps -fullyApplied nScopes coroutines nCoroutines calls log]
def St.setScope (s : St E) (i : Nat) (x : Scope) : St E :=
  { s with scopes := update s.scopes i x }

@[simps -fullyApplied scopes nScopes log]
def St.setCoroutine (s : St E) (d : Nat) (x : Coroutine) : St E :=
  { s with coroutines := update s.coroutines d x }

@[simps -fullyApplied scopes coroutines nScopes log]
def St.write (s : St E) (e : Event E) : St E := { s with log := s.log ++ [e] }

@[simp] theorem setScope_self (s : St E) (i : Nat) (x : Scope) : (s.setScope i x).scopes i = x :=
  update_self ..

theorem setScope_ne (s : St E) (i : Nat) (x : Scope) {j : Nat} (h : j ≠ i) :
    (s.setScope i x).scopes j = s.scopes j := update_of_ne h ..

@[simp] theorem setCoroutine_self (s : St E) (d : Nat) (x : Coroutine) :
    (s.setCoroutine d x).coroutines d = x := update_self ..

theorem setCoroutine_ne (s : St E) (d : Nat) (x : Coroutine) {c : Nat} (h : c ≠ d) :
    (s.setCoroutine d x).coroutines c = s.coroutines c := update_of_ne h ..

/-! ## Who is there -/

def St.kids (s : St E) (i : Nat) : List Nat := (s.scopes i).scopes

/-- The scope `i` and all its descendants. -/
def St.below (s : St E) (i : Nat) : List Nat := Core.below s.kids (s.nScopes + 1) i

/-- The coroutines of `i` and its descendants that are not finished. -/
def unfinished (s : St E) (i : Nat) : List Nat :=
  (s.below i).flatMap fun j => (s.scopes j).coroutines.filter fun d => !(s.coroutines d).finished

/-- mirrors scope.c:1509-1553 -/
def canBeDisposed (s : St E) (withZombies dispose : Bool) : Nat → Nat → Bool
  | 0, _ => false
  | fuel + 1, i =>
    let x := s.scopes i
    -- a closed or cancelled scope counts as completed
    if !dispose && (x.closed || x.cancelled) then true
    else if 0 < (if withZombies then x.active + x.zombies else x.active) then false
    else if dispose && x.pinned then false
    else if dispose && !(x.cancelled || !x.object) then false
    else x.scopes.all (canBeDisposed s withZombies dispose fuel)

/-- `SCOPE_IS_COMPLETELY_DONE` -/
def isCompletelyDone (s : St E) (i : Nat) : Bool := canBeDisposed s true false (s.nScopes + 1) i

/-! ## Scopes and coroutines come -/

def addChild (s : St E) (p n : Nat) : St E :=
  s.setScope p { s.scopes p with scopes := (s.scopes p).scopes ++ [n] }

def allocScope (s : St E) (x : Scope) : St E :=
  { s with scopes := update s.scopes s.nScopes x, nScopes := s.nScopes + 1 }

/-- mirrors scope.c:1303-1379 -/
def newScope (s : St E) (parent : Option Nat) (object : Bool) : St E :=
  match parent with
  | some p =>
    addChild (allocScope s
      { alive := true, parent := some p, object := object, safely := (s.scopes p).safely, refs := 1 })
      p s.nScopes
  | none => allocScope s { alive := true, object := object, safely := !object, refs := 1 }

def allocCoroutine (s : St E) (x : Coroutine) : St E :=
  { s with
    coroutines := update s.coroutines s.nCoroutines x, nCoroutines := s.nCoroutines + 1 }

/-- mirrors async_API.c:98-180, scope.c:33-55 -/
def spawn (s : St E) (i : Nat) : St E :=
  (allocCoroutine s { scope := some i }).setScope i
    { s.scopes i with coroutines := (s.scopes i).coroutines ++ [s.nCoroutines],
                      active := (s.scopes i).active + 1 }

/-- mirrors exceptions.c:335-363 -/
def spawnAndThrow (s : St E) (i : Nat) : St E :=
  if (s.scopes i).cancelled || (s.scopes i).closed then spawn (newScope s (some i) false) s.nScopes
  else spawn s i

def addRef (s : St E) (i : Nat) : St E :=
  s.setScope i { s.scopes i with refs := (s.scopes i).refs + 1 }

def pushContext (s : St E) (x : Context) : St E := { s with contexts := s.contexts ++ [x] }

def dropContext (s : St E) (k : Nat) : St E := { s with contexts := s.contexts.eraseIdx k }

/-- `async_call_finally_handlers`: a coroutine in a child scope of its own.
mirrors coroutine.c:1270-1315 -/
def startFinally (s : St E) (owner : Owner) (i : Nat) : St E :=
  addRef (pushContext (spawn (newScope s (some i) false) s.nScopes) ⟨owner, i⟩) i

def takeFinallyHandlers (s : St E) (i : Nat) : St E :=
  (s.setScope i { s.scopes i with finallyHandlers := [] }).write
    (.started i (s.scopes i).finallyHandlers)

/-- `async_scope_call_finally_handlers`
mirrors scope.c:1705-1739 -/
def callFinallyHandlers (s : St E) (i : Nat) : St E :=
  if (s.scopes i).finallyHandlers = [] then s
  else startFinally (takeFinallyHandlers s i) (.scope i) i

/-! ## Notification -/

def handle (s : St E) (i : Nat) : St E := s.setScope i { s.scopes i with handled := true }

/-- The awaiter `a` of the scope `i` is resumed, with `e` or without an exception. -/
def resume (s : St E) (i a : Nat) (e : Option E) : St E :=
  (s.setScope i { s.scopes i with
    callbacks := (s.scopes i).callbacks.filter fun cb => !cb.isAwaiter a }).write
    (.resumed a i e (unfinished s i))

def resumeWhenDone (s : St E) (i a : Nat) : St E :=
  if isCompletelyDone s i then resume s i a none else s

/-- `callback_resolve_when_zombie_completed`
mirrors scope.c:810-864 -/
def resolveWhenZombieCompleted (c : Env E) (i : Nat) (e : Option E) (s : St E) (a : Nat)
    (handler : Bool) : St E :=
  match e with
  | none => resumeWhenDone s i a
  | some x =>
    if handler then
      match c.onError s.log.length a x with
      | some y => resume (handle s i) i a (some y)
      | none => resumeWhenDone (handle s i) i a
    else resume (handle s i) i a (some x)

def callback (c : Env E) (i : Nat) (e : Option E) (s : St E) (cb : Callback) : St E :=
  match cb with
  | .awaiter a handler => resolveWhenZombieCompleted c i e (s.write (.notified i cb e)) a handler
  | .other marks =>
    if marks && e.isSome then handle (s.write (.notified i cb e)) i else s.write (.notified i cb e)

/-- `ZEND_ASYNC_CALLBACKS_NOTIFY` -/
def notify (c : Env E) (s : St E) (i : Nat) (e : Option E) : St E :=
  (s.scopes i).callbacks.foldl (callback c i e) s

/-- mirrors scope.c:1560-1577 -/
def checkCompletionAndNotify (c : Env E) (withZombies : Bool) : Nat → St E → Nat → St E
  | 0, s, _ => s
  | fuel + 1, s, i =>
    if canBeDisposed s withZombies false (s.nScopes + 1) i then
      match ((notify c s i none).scopes i).parent with
      | some p => checkCompletionAndNotify c withZombies fuel (notify c s i none) p
      | none => notify c s i none
    else s

/-! ## Cancellation -/

def countZombie (x : Scope) : Scope :=
  if 0 < x.active then { x with active := x.active - 1, zombies := x.zombies + 1 } else x

/-- mirrors scope.c:907-923 -/
def markZombie (c : Env E) (s : St E) (d : Nat) : St E :=
  match (s.coroutines d).zombie, (s.coroutines d).scope with
  | false, some i =>
    checkCompletionAndNotify c false (i + 1)
      ((s.setCoroutine d { s.coroutines d with zombie := true }).setScope i
        (countZombie (s.scopes i))) i
  | _, _ => s

/-- `async_coroutine_cancel`, as far as flags and scopes go.
mirrors coroutine.c:866-999 -/
def cancelCoroutine (c : Env E) (safely : Bool) (s : St E) (d : Nat) : St E :=
  let x := s.coroutines d
  if x.finished then s
  else if s.current = some d then s.setCoroutine d { x with cancelled := true }
  else if x.protected_ then s.setCoroutine d { x with deferred := true }
  else if x.started && safely then markZombie c (s.setCoroutine d { x with cancelled := true }) d
  else s.setCoroutine d { x with cancelled := true }

def close (s : St E) (i : Nat) : St E :=
  (s.setScope i { s.scopes i with closed := true }).write (.closed i (unfinished s i))

def setCancelled (s : St E) (i : Nat) : St E :=
  s.setScope i { s.scopes i with cancelled := true }

def cancelCoroutines (c : Env E) (safely : Bool) (s : St E) (i : Nat) : St E :=
  (s.scopes i).coroutines.foldl (cancelCoroutine c safely) s

def cancelChildren (kid : St E → Nat → St E) (s : St E) (i : Nat) : St E :=
  (s.scopes i).scopes.foldl kid s

/-- What the two modes of `scope_catch_or_cancel` share: the scope is cancelled, then the
children by `kid`, then the coroutines, then the subscribers are notified with `e`.
mirrors scope.c:1004-1052 -/
def stop (c : Env E) (safely : Bool) (kid : St E → Nat → St E) (s : St E) (i : Nat) (e : E) : St E :=
  notify c (cancelCoroutines c safely (cancelChildren kid (setCancelled s i) i) i) i (some e)

/-- `scope_catch_or_cancel` with `is_cancellation = true`
mirrors scope.c:942-1080 -/
def cancel (c : Env E) (safely : Bool) : Nat → St E → Nat → Option E → St E
  | 0, s, _, _ => s
  | fuel + 1, s, i, e =>
    if (s.scopes i).closed then s
    else if isCompletelyDone s i then callFinallyHandlers (close s i) i
    else stop c safely (fun s j => cancel c safely fuel s j (some (e.getD c.cancellation))) s i
      (e.getD c.cancellation)

/-! ## Exceptions -/

inductive Verdict (E : Type) where
  | handled
  | passed (thrown : Option E)

/-- A handler is called. -/
def offer (c : Env E) (s : St E) (i : Nat) (child : Bool) (o : Owner) (e : E) : St E × Verdict E :=
  ({ s with calls := s.calls ++ [⟨i, child, o, e⟩] },
    match c.handler s.calls.length i child e with
    | none => .handled
    | some x => .passed (some x))

/-- A handler that throws leaves its exception behind, and the engine calls nothing while
an exception is pending: behind the handler for child scopes the own one is not called.
mirrors scope.c:1579-1698 -/
def tryToHandleException (c : Env E) (scheduler : Bool) (told : Option Owner) (s : St E) (i : Nat)
    (origin : Option Nat) (e : E) : St E × Verdict E :=
  if !(s.scopes i).handler && !(s.scopes i).childHandler then (s, .passed none)
  else
    match scheduler, told with
    | false, some o =>
      if origin.isSome && (s.scopes i).childHandler then offer c s i true o e
      else if (s.scopes i).handler then offer c s i false o e
      else (s, .passed none)
    | _, _ => (spawnAndThrow s (origin.getD i), .handled)

/-- `scope_catch_or_cancel` with `is_cancellation = false`
mirrors scope.c:942-1080 -/
def catch_ (c : Env E) (scheduler safely : Bool) (told : Option Owner) :
    Nat → St E → Nat → Option Nat → E → St E × Bool
  | 0, s, _, _, _ => (s, false)
  | fuel + 1, s, i, origin, e =>
    match tryToHandleException c scheduler told s i origin e with
    | (s, .handled) => (s, true)
    | (s, .passed thrown) =>
      let e := match thrown with
        | some x => c.merge e x
        | none => e
      let s := stop c safely (fun t j => cancel c safely (s.nScopes + 1) t j none) s i e
      if (s.scopes i).handled then (s, true)
      else
        match (s.scopes i).parent with
        | some p => catch_ c scheduler safely told fuel s p (some i) e
        | none => (s, false)

/-! ## Disposal -/

def clearCallbacks (s : St E) (i : Nat) : St E := s.setScope i { s.scopes i with callbacks := [] }

def setDisposing (s : St E) (i : Nat) (on : Bool) : St E :=
  s.setScope i { s.scopes i with disposing := on }

def dropRef (s : St E) (i : Nat) : St E :=
  s.setScope i { s.scopes i with refs := (s.scopes i).refs - 1 }

def unlink (s : St E) (j : Nat) : St E := s.setScope j { s.scopes j with parent := none }

/-- The record goes, and with it the entry in the vector of the parent. A scope that its parent
has disposed has no parent any more (scope.c:1213-1217), and a parent that is kept has a freed
record in its vector then, which it must not look at: here that entry goes as well.
mirrors scope.c:1253-1296 -/
def free (s : St E) (i : Nat) : St E :=
  { s with
    scopes := fun k =>
      if k = i then {} else { s.scopes k with scopes := (s.scopes k).scopes.erase i } }

/-- The last notification of the subscribers. -/
def notifyLast (c : Env E) (s : St E) (i : Nat) : St E := clearCallbacks (notify c s i none) i

/-- The scope is kept when its finally handlers are started or somebody holds it. -/
def disposeSelf (s : St E) (i : Nat) : St E :=
  if (s.scopes i).finallyHandlers ≠ [] then setDisposing (callFinallyHandlers s i) i false
  else if 1 < (s.scopes i).refs then setDisposing (dropRef s i) i false
  else free s i

/-- `scope_dispose`
mirrors scope.c:1184-1302 -/
def dispose (c : Env E) : Nat → St E → Nat → St E
  | 0, s, _ => s
  | fuel + 1, s, i =>
    if (s.scopes i).disposing then s
    else if 1 < (s.scopes i).refs then notifyLast c (dropRef s i) i
    else
      disposeSelf (notifyLast c
        ((s.scopes i).scopes.foldl (fun s j => dispose c fuel (unlink s j) j)
          (s.setScope i { s.scopes i with refs := 1, disposing := true })) i) i

/-- The loop over the children; a child that is freed leaves the vector meanwhile. -/
def disposeChildren (c : Env E) (i : Nat) : Nat → St E → Nat → St E
  | 0, s, _ => s
  | rounds + 1, s, k =>
    match (s.scopes i).scopes[k]? with
    | some j => disposeChildren c i rounds (dispose c (s.nScopes + 1) s j) (k + 1)
    | none => s

/-- mirrors scope.c:1082-1112 -/
def tryToDispose (c : Env E) (s : St E) (i : Nat) : St E × Bool :=
  if (s.scopes i).disposing then (s, true)
  else if canBeDisposed s true true (s.nScopes + 1) i then
    (dispose c (s.nScopes + 1) (setDisposing
      (disposeChildren c i (s.scopes i).scopes.length (setDisposing s i true) 0) i false) i, true)
  else (s, false)

/-- `ZEND_ASYNC_SCOPE_RELEASE` -/
def release (c : Env E) (s : St E) (i : Nat) : St E :=
  (tryToDispose c (if 1 < (s.scopes i).refs then dropRef s i else s) i).1

/-! ## The end of a coroutine -/

/-- mirrors scope.c:57-75 -/
def removeCoroutine (s : St E) (i d : Nat) : St E :=
  if d ∈ (s.scopes i).coroutines then
    s.setScope i
      (if !(s.coroutines d).zombie && 0 < (s.scopes i).active then
        { s.scopes i with coroutines := (s.scopes i).coroutines.erase d,
                          active := (s.scopes i).active - 1 }
      else
        { s.scopes i with coroutines := (s.scopes i).coroutines.erase d,
                          zombies := (s.scopes i).zombies - 1 })
  else s

/-- mirrors scope.c:896-905 -/
def notifyCoroutineFinished (c : Env E) (s : St E) (i d : Nat) : St E :=
  (tryToDispose c (checkCompletionAndNotify c true (i + 1) (removeCoroutine s i d) i) i).1

def leave (s : St E) (d : Nat) : St E := s.setCoroutine d { s.coroutines d with scope := none }

/-- The rest of its end runs in the name of the coroutine. -/
def setFinished (s : St E) (d : Nat) : St E :=
  { s with
    coroutines := update s.coroutines d { s.coroutines d with finished := true }
    current := some d }

def takeFinallyHandlersOf (s : St E) (d : Nat) : St E :=
  s.setCoroutine d { s.coroutines d with finallyHandlers := [] }

/-- mirrors coroutine.c:1323-1349 -/
def callFinallyHandlersOf (s : St E) (d i : Nat) : St E :=
  if (s.coroutines d).finallyHandlers = [] then s
  else startFinally (takeFinallyHandlersOf s d) (.coroutine d) i

/-- `async_coroutine_finalize`; `e` is what is left of an exception that nobody who
awaits the coroutine handled.
mirrors coroutine.c:594-779 -/
def finalize (c : Env E) (s : St E) (d i : Nat) (e : Option E) (scheduler : Bool) : St E :=
  let s := callFinallyHandlersOf (setFinished s d) d i
  let s := match e with
    | some x =>
      (catch_ c scheduler (s.scopes i).safely (some (.coroutine d)) (i + 1) s i none x).1
    | none => s
  leave (notifyCoroutineFinished c s i d) d

/-- mirrors coroutine.c:1220-1268; the union is read as a coroutine -/
def finallyHandlersDtor (c : Env E) (s : St E) (x : Context) (e : Option E) (scheduler : Bool) :
    St E :=
  let s := match e with
    | some y =>
      (catch_ c scheduler (s.scopes x.scope).safely (some x.owner) (x.scope + 1) s x.scope none y).1
    | none => s
  release c s x.scope

/-! ## Waiting for a cancelled scope -/

/-- `none`: the recursion is too deep, and an error is thrown.
mirrors scope.c:866-894 -/
def containsCoroutine (s : St E) (a : Nat) : Nat → Nat → Option Bool
  | 0, _ => none
  | fuel + 1, i =>
    if a ∈ (s.scopes i).coroutines then some true
    else (s.scopes i).scopes.foldl (fun r j =>
      if r = some true then r
      else if (s.scopes j).coroutines = [] && (s.scopes j).scopes = [] then r
      else match containsCoroutine s a fuel j with
        | some false => r
        | r' => r') (some false)

/-- `ASYNC_SCOPE_MAX_RECURSION_DEPTH` -/
def maxRecursionDepth : Nat := 64

/-- `Scope::awaitAfterCancellation`, up to the suspension
mirrors scope.c:378-441, 443-483 -/
def awaitAfterCancellation (s : St E) (a i : Nat) (handler : Bool) : St E :=
  let x := s.scopes i
  if x.closed || !x.cancelled then s
  else if containsCoroutine s a (maxRecursionDepth + 1) i ≠ some false then s
  else if x.coroutines = [] && x.scopes = [] then s
  else s.setScope i { x with callbacks := x.callbacks ++ [.awaiter a handler] }

/-! ## The system -/

inductive Lbl (E : Type) where
  | newScope (parent : Option Nat) (object : Bool)
  | spawn (i : Nat)
  /-- another coroutine runs, or none -/
  | switch (d : Option Nat)
  | begin_ (d : Nat)
  /-- a call of `protect()` begins or ends -/
  | protect (d : Nat) (on : Bool)
  /-- `cancel()`, `dispose()`, `disposeSafely()`, a timeout -/
  | cancel (i : Nat) (e : Option E) (safely : Bool)
  | cancelCoroutine (d : Nat) (safely : Bool)
  /-- the PHP object goes -/
  | destroy (i : Nat)
  | addRef (i : Nat)
  | release (i : Nat)
  /-- the handlers and flags of a scope are set -/
  | configure (i : Nat) (handler childHandler safely pinned : Bool)
  | finally_ (i h : Nat)
  | finallyOf (d h : Nat)
  /-- a task group starts its finally handlers -/
  | groupFinally (g i : Nat)
  | subscribe (i : Nat) (marks : Bool)
  | unsubscribe (i : Nat) (marks : Bool)
  | await (a i : Nat) (handler : Bool)
  /-- the awaiter is cancelled, or its cancellation token fires -/
  | interrupt (a i : Nat) (e : E)
  | finish (d : Nat) (e : Option E) (scheduler : Bool)
  /-- the iterator over finally handlers is destroyed -/
  | finallyEnd (k : Nat) (e : Option E) (scheduler : Bool)
  /-- the errors of a task group that goes -/
  | groupErrors (i : Nat) (e : E) (scheduler : Bool)

/-- mirrors async.c:237-294 -/
def protect (s : St E) (d : Nat) (on : Bool) : St E :=
  let x := s.coroutines d
  if on then s.setCoroutine d { x with protected_ := true }
  else if x.deferred then
    s.setCoroutine d { x with protected_ := false, deferred := false, cancelled := true }
  else s.setCoroutine d { x with protected_ := false }

/-- mirrors scope.c:1396-1416 -/
def destroy (c : Env E) (s : St E) (i : Nat) : St E :=
  match tryToDispose c (s.setScope i { s.scopes i with object := false }) i with
  | (s, true) => s
  | (s, false) => cancel c (s.scopes i).safely (s.nScopes + 1) s i none

def step (c : Env E) (s : St E) : Lbl E → Option (St E)
  | .newScope parent object =>
    if parent.all fun p => (s.scopes p).alive then some (newScope s parent object) else none
  | .spawn i =>
    if (s.scopes i).alive ∧ (s.scopes i).closed = false then some (spawn s i) else none
  | .switch d => some { s with current := d }
  | .begin_ d =>
    if d < s.nCoroutines ∧ (s.coroutines d).finished = false then
      some (s.setCoroutine d { s.coroutines d with started := true })
    else none
  | .protect d on =>
    if d < s.nCoroutines ∧ (s.coroutines d).finished = false then some (protect s d on) else none
  | .cancel i e safely =>
    if (s.scopes i).alive then some (cancel c safely (s.nScopes + 1) s i e) else none
  | .cancelCoroutine d safely =>
    if d < s.nCoroutines then some (cancelCoroutine c safely s d) else none
  | .destroy i =>
    if (s.scopes i).alive ∧ (s.scopes i).object then some (destroy c s i) else none
  | .addRef i => if (s.scopes i).alive then some (addRef s i) else none
  | .release i => if (s.scopes i).alive then some (release c s i) else none
  | .configure i handler childHandler safely pinned =>
    if (s.scopes i).alive then
      some (s.setScope i { s.scopes i with
        handler := handler, childHandler := childHandler, safely := safely, pinned := pinned })
    else none
  | .finally_ i h =>
    if (s.scopes i).alive then
      some (s.setScope i
        { s.scopes i with finallyHandlers := (s.scopes i).finallyHandlers ++ [h] })
    else none
  | .finallyOf d h =>
    if d < s.nCoroutines ∧ (s.coroutines d).finished = false then
      some (s.setCoroutine d
        { s.coroutines d with finallyHandlers := (s.coroutines d).finallyHandlers ++ [h] })
    else none
  | .groupFinally g i => if (s.scopes i).alive then some (startFinally s (.group g) i) else none
  | .subscribe i marks =>
    if (s.scopes i).alive then
      some (s.setScope i { s.scopes i with callbacks := (s.scopes i).callbacks ++ [.other marks] })
    else none
  | .unsubscribe i marks =>
    if (s.scopes i).alive then
      some (s.setScope i
        { s.scopes i with callbacks := (s.scopes i).callbacks.erase (.other marks) })
    else none
  | .await a i handler =>
    if (s.scopes i).alive ∧ s.current = some a then some (awaitAfterCancellation s a i handler)
    else none
  | .interrupt a i e =>
    if (s.scopes i).callbacks.any (·.isAwaiter a) then some (resume s i a (some e)) else none
  | .finish d e scheduler =>
    match (s.coroutines d).scope with
    | some i =>
      if (s.coroutines d).finished = false ∧ (s.scopes i).alive then
        some (finalize c s d i e scheduler)
      else none
    | none => none
  | .finallyEnd k e scheduler =>
    match s.contexts[k]? with
    | some x =>
      if (s.scopes x.scope).alive then
        some (finallyHandlersDtor c (dropContext s k) x e scheduler)
      else none
    | none => none
  | .groupErrors i e scheduler =>
    if (s.scopes i).alive then
      some (catch_ c scheduler false none (i + 1) s i none e).1
    else none

def Init (s : St E) : Prop := s = start

def lts (c : Env E) : LTS (St E) (Lbl E) := LTS.ofFn Init (step c)

/-- Exceptions are numbers, and handlers return. -/
def plain : Env Nat := ⟨fun _ _ _ _ => none, fun _ _ _ => none, fun e _ => e, 99⟩

end PhpAsync.L2.Scopes
