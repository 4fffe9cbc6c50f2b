import MarketBridge.Lib.Lts

/-!
# Registration and shutdown (`server.cpp`)

`register_session` and the collecting part of `stop_sessions` are critical sections of `session_mtx_`; the
compare-exchange of `schedule_shutdown`, every `stop()` of its loop and `close_acceptors` are steps of their
own. Any number of threads call `schedule_shutdown`, each call goes through its steps at its own pace. `ι` are
the sessions; `sessions` holds weak pointers, `active` shared ones.
-/

namespace MarketBridge

/-- Where a call of `schedule_shutdown` stands. -/
inductive ShutdownCall (ι : Type)
  | called
  | returned  -- it has lost the compare-exchange
  | won
  | stopping (active rest : List ι)  -- `rest` is what the loop over `active` has not stopped yet
  | finished
deriving DecidableEq, Repr

/-- The sessions that a call holds by shared pointers until its loop is over. -/
def ShutdownCall.held {ι : Type} : ShutdownCall ι → List ι
  | stopping active (_ :: _) => active
  | _ => []

structure Registry (ι : Type) where
  shutdownPending : Bool := false
  sessions : List ι := []
  calls : List (ShutdownCall ι) := []
  acceptorsOpen : Bool := true
  constructed : List ι := []
  destroyed : List ι := []
  /-- The answers of `register_session`, in order. -/
  results : List (ι × Bool) := []
  started : List ι := []
  /-- The calls of `stop()`, in order. -/
  stops : List ι := []

namespace Registry

variable {ι : Type} [DecidableEq ι]

inductive Action (ι : Type)
  | construct (i : ι)
  | registerSession (i : ι)
  | start (i : ι)
  | destroy (i : ι)
  | scheduleShutdown
  | compareExchange (k : Nat)
  | collect (k : Nat)
  | stopNext (k : Nat)
  | closeAcceptors (k : Nat)
deriving DecidableEq, Repr

/-- A weak pointer to the session can be locked. -/
def isAlive (r : Registry ι) (i : ι) : Bool := i ∈ r.constructed ∧ i ∉ r.destroyed

def registerSession (r : Registry ι) (i : ι) : Registry ι :=
  let shutdown := r.shutdownPending
  { r with
    sessions := if !shutdown then r.sessions ++ [i] else r.sessions
    results := r.results ++ [(i, !shutdown)] }

/-- The compare-exchange of the call `k`. -/
def compareExchange (r : Registry ι) (k : Nat) : Registry ι :=
  if r.shutdownPending then { r with calls := r.calls.set k .returned }
  else { r with shutdownPending := true, calls := r.calls.set k .won }

/-- The critical section of `stop_sessions`: dead entries are erased, the others are copied. -/
def collect (r : Registry ι) (k : Nat) : Registry ι :=
  let active := r.sessions.filter r.isAlive
  { r with sessions := active, calls := r.calls.set k (.stopping active active) }

/-- A session is registered once, where it is made, started if it was registered, and destroyed when no
shared pointer holds it. -/
def step (r : Registry ι) : Action ι → Option (Registry ι)
  | .construct i => if i ∉ r.constructed then some { r with constructed := r.constructed ++ [i] } else none
  | .registerSession i =>
    if r.isAlive i ∧ i ∉ r.results.map (·.1) then some (r.registerSession i) else none
  | .start i =>
    if (i, true) ∈ r.results ∧ i ∉ r.started then some { r with started := r.started ++ [i] } else none
  | .destroy i =>
    if r.isAlive i ∧ ∀ c ∈ r.calls, i ∉ c.held then
      some { r with destroyed := r.destroyed ++ [i] }
    else none
  | .scheduleShutdown => some { r with calls := r.calls ++ [.called] }
  | .compareExchange k => if r.calls[k]? = some .called then some (r.compareExchange k) else none
  | .collect k => if r.calls[k]? = some .won then some (r.collect k) else none
  | .stopNext k =>
    match r.calls[k]? with
    | some (.stopping active (i :: rest)) =>
      some { r with stops := r.stops ++ [i], calls := r.calls.set k (.stopping active rest) }
    | _ => none
  | .closeAcceptors k =>
    match r.calls[k]? with
    | some (.stopping _ []) => some { r with acceptorsOpen := false, calls := r.calls.set k .finished }
    | _ => none

end Registry

end MarketBridge
