/-!
# Exceptions and wakers

What a parked coroutine's waker records: whether the coroutine has been put
back into the run queue, and the exception it will be resumed with. A wakeup
only queues the coroutine; it runs at some later point, and until then further
wakeups and cancellations can still change the exception
(`async_coroutine_resume`, `async_coroutine_cancel`).

An exception is its class with the data the modelled code reads; `$previous`
chains are left out.
-/
namespace PhpAsync.L1

/-- mirrors channel.h:32-41 -/
inductive CloseReason where
  | explicit | disposed | noProducers | noConsumers | deadlock | scopeDisposed
  deriving DecidableEq, Repr

inductive Exn where
  | channel (reason : CloseReason)
  | cancellation
  | operationCanceled
  | timeout
  | pool (message : String)
  | serviceUnavailable
  /-- `exit()`, an unwind or a graceful one -/
  | exit
  | user (n : Nat)
  deriving DecidableEq, Repr

/-- `instanceof AsyncCancellation`.
mirrors exceptions.stub.php:11-17 -/
def Exn.isCancellation : Exn → Bool
  | .cancellation => true
  | .operationCanceled => true
  | _ => false

/-- `EG(exception)->ce == async_ce_channel_exception`. -/
def Exn.isChannel : Exn → Bool
  | .channel _ => true
  | _ => false

/-- The text `make_channel_exception` gives each close reason.
mirrors channel.c:83-94 -/
def CloseReason.message : CloseReason → String
  | .explicit => "Channel is closed"
  | .disposed => "Channel disposed"
  | .noProducers => "Channel deadlock: no producers"
  | .noConsumers => "Channel deadlock: no consumers"
  | .deadlock => "Channel deadlock"
  | .scopeDisposed => "Channel closed: owner scope disposed"

/-- `queued` is `ZEND_ASYNC_WAKER_QUEUED` (against `WAITING`). -/
structure Waker where
  queued : Bool
  error : Option Exn
  deriving DecidableEq, Repr

/-- The waker of a coroutine that has just suspended. -/
def Waker.parked : Waker := ⟨false, none⟩

/-- A later error replaces an earlier one unless it is a cancellation.
mirrors coroutine.c:795-864 -/
def Waker.resume (w : Waker) (error : Option Exn) : Waker where
  queued := true
  error := match error, w.error with
    | none, old => old
    | some e, none => some e
    | some e, some old => if e.isCancellation then some old else some e

/-- A cancellation replaces any error that is not one already.
mirrors coroutine.c:866-999 (a started, unprotected coroutine) -/
def Waker.cancel (w : Waker) : Waker where
  queued := true
  error := match w.error with
    | some e => if e.isCancellation then some e else some .cancellation
    | none => some .cancellation

@[simp] theorem Waker.resume_queued (w : Waker) (e : Option Exn) : (w.resume e).queued = true := rfl

@[simp] theorem Waker.cancel_queued (w : Waker) : w.cancel.queued = true := rfl

@[simp] theorem Waker.resume_none (w : Waker) : (w.resume none).error = w.error := by
  unfold Waker.resume; cases w.error <;> rfl

theorem Waker.resume_some (w : Waker) (e : Exn) : (w.resume (some e)).error ≠ none := by
  unfold Waker.resume
  cases w.error with
  | none => simp
  | some old => simp only; split <;> simp

theorem Waker.cancel_error (w : Waker) : w.cancel.error ≠ none := by
  unfold Waker.cancel
  cases w.error with
  | none => simp
  | some e => simp only; split <;> simp

end PhpAsync.L1
