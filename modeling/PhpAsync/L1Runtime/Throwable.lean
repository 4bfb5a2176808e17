/-!
# Exception objects

An exception as an object: two exceptions are the same when their identities are.
Those the runtime makes itself are numbered apart from those PHP code brings. Of the
class of an exception the runtime asks three things: whether it is an
`AsyncCancellation`, whether it is the pseudo-exception of `exit()`, or neither.

`mergeError` and `applyCancellation` are what a resumption and a cancellation do to
the error a waker holds. `$previous` chains are left out.
-/
namespace PhpAsync.L1

inductive ErrId where
  | given (n : Nat)
  | made (n : Nat)
  deriving DecidableEq, Repr

/-- `instanceof AsyncCancellation`; `zend_is_graceful_exit` or `zend_is_unwind_exit`. The two
exits are one kind here, though exceptions.c:421-425 keeps only an unwind exit from being
replaced. -/
inductive ErrKind where
  | cancellation | exit | other
  deriving DecidableEq, Repr

structure Err where
  id : ErrId
  kind : ErrKind
  deriving DecidableEq, Repr

def Err.isCancellation (e : Err) : Bool := decide (e.kind = .cancellation)

def Err.isExit (e : Err) : Bool := decide (e.kind = .exit)

theorem Err.not_exit_of_cancellation {e : Err} (h : e.isCancellation = true) : e.isExit = false := by
  unfold Err.isCancellation at h
  unfold Err.isExit
  rw [of_decide_eq_true h]
  rfl

/-- `async_coroutine_resume`: a later error replaces an earlier one unless it is a
cancellation.
mirrors coroutine.c:805-827 -/
def mergeError (old error : Option Err) : Option Err :=
  match error, old with
  | none, old => old
  | some e, none => some e
  | some e, some old => if e.isCancellation then some old else some e

/-- `ZEND_ASYNC_WAKER_APPLY_CANCELLATION`: nothing to do behind a cancellation, and
over any other error the cancellation wins.
mirrors coroutine.c:965-972 -/
def applyCancellation (old : Option Err) (error : Err) : Option Err :=
  match old with
  | some e => if e.isCancellation then some e else some error
  | none => some error

@[simp] theorem mergeError_none (old : Option Err) : mergeError old none = old := by
  cases old <;> rfl

/-- The waker of a coroutine resumed with an error holds that error or an earlier one. -/
theorem mergeError_some (old : Option Err) (e : Err) :
    mergeError old (some e) = some e ∨ ∃ old', old = some old' ∧ mergeError old (some e) = old := by
  cases old with
  | none => exact .inl rfl
  | some old' => grind [mergeError]

end PhpAsync.L1
