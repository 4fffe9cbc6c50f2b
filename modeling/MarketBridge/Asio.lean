import MarketBridge.Stream

/-!
# What the sessions see of asio (`common/ec-handler.h`)

An asynchronous operation is pending until it completes with a result; its coroutine goes on when it runs
again on its strand. Closing a socket completes the pending operations on it with `operation_aborted`, and
an operation started on a closed socket completes at once with an error.
-/

namespace MarketBridge

/-- `asio::error_code`; `other` has the value of an error the code does not look at. -/
inductive ErrorCode
  | success | eof | operationAborted
  | other (value : Nat)
deriving DecidableEq, Repr

namespace ErrorCode

def badDescriptor : ErrorCode := other 9

def connectionRefused : ErrorCode := other 111

end ErrorCode

@[simp] def isEof (ec : ErrorCode) : Bool := ec = .eof

@[simp] def isAborted (ec : ErrorCode) : Bool := ec = .operationAborted

@[simp] def isCancelled (ec : ErrorCode) : Bool := isAborted ec

@[simp] def checkEc (ec : ErrorCode) : Bool := ec = .success

/-- An operation a coroutine waits for. -/
inductive Await (ρ : Type)
  | pending
  | ready (result : ρ)
deriving DecidableEq, Repr

namespace Await

variable {ρ : Type}

/-- The operation started on a socket that is open or not; `r` is the result on a closed one. -/
def start (isOpen : Bool) (r : ρ) : Await ρ := if isOpen then .pending else .ready r

/-- The socket of the operation is closed; `r` is the result of the cancelled operation. -/
def close (r : ρ) : Await ρ → Await ρ
  | pending => ready r
  | ready r' => ready r'

def isPending : Await ρ → Bool
  | pending => true
  | ready _ => false

@[simp] theorem isPending_iff {a : Await ρ} : a.isPending = true ↔ a = pending := by
  cases a <;> simp [isPending]

@[simp] theorem close_ne_pending {r : ρ} {a : Await ρ} : a.close r ≠ pending := by
  cases a <;> simp [close]

theorem start_eq_pending {b : Bool} {r : ρ} : start b r = pending ↔ b = true := by
  cases b <;> simp [start]

end Await

end MarketBridge
