import MarketBridge.Server

/-!
# The listeners (`server.cpp`)

Each acceptor has a listener, a coroutine of its own; what they share are the acceptors, the signal handler
and, over the registry, the flag of `schedule_shutdown`. A step is what a coroutine or a thread does between
two looks at this shared state, so the listeners interleave in every way. Closing an acceptor completes the
accept that is pending on it with `operation_aborted`; a completed one keeps its result. The listeners keep
references to the acceptors that `close_acceptors` destroys: `startAccept` takes a destroyed acceptor for a closed
one, and the results about the end of the server leave such runs out (`System.Holding`).
-/

namespace MarketBridge

def Port.other : Port → Port
  | http => https
  | https => http

/-- Where a listener stands. -/
inductive ListenerTask
  | loop                        -- before `while (!shutdown_pending_)`
  | starting                    -- before `async_accept`
  | accepting (op : Await ErrorCode)
  | handling                    -- the accepted socket has not been passed on
  | leaving                     -- before `uninstall_signals_handler`
  | uninstalling (port : Port)  -- before `uninstall_listeners` looks at this acceptor
  | returned
deriving DecidableEq, Repr

/-- The acceptor of the listener is closed. -/
def ListenerTask.cancel : ListenerTask → ListenerTask
  | accepting op => accepting (op.close .operationAborted)
  | task => task

structure Listeners (ι : Type) where
  cfg : Config
  registry : Registry ι := {}
  /-- The `async_wait` of the signal handler, until the handler has run. -/
  signals : Option (Await ErrorCode) := some .pending
  /-- `http_acceptor_` and `https_acceptor_` have not been moved out by `close_acceptors`. -/
  holdsAcceptors : Bool := true
  isOpen : Port → Bool
  tasks : Port → ListenerTask
  /-- The ports whose completion handler has been called, in order. -/
  dispatched : List Port := []

inductive Listeners.Event (ι : Type)
  | checkShutdown (p : Port)
  | startAccept (p : Port)
  | accepted (p : Port) (ec : ErrorCode)
  | resume (p : Port)
  | dispatch (p : Port)
  | cancelSignals (p : Port)
  | uninstall (p : Port)
  | signal
  | runSignalHandler
  | registry (a : Registry.Action ι)
deriving DecidableEq, Repr

/-- `init_acceptors`: with equal ports there is no HTTPS acceptor. -/
def hasAcceptor (cfg : Config) : Port → Bool
  | .http => true
  | .https => cfg.server.httpsPort != cfg.server.httpPort

namespace Listeners

variable {ι : Type}

/-- After `install_signals_handler`, `init_acceptors` and `install_listeners`. -/
def new (cfg : Config) : Listeners ι where
  cfg := cfg
  isOpen := hasAcceptor cfg
  tasks p := if hasAcceptor cfg p then .loop else .returned

def setTask (s : Listeners ι) (p : Port) (task : ListenerTask) : Listeners ι :=
  { s with tasks := Function.update s.tasks p task }

/-- `acceptor.close()`. -/
def close (s : Listeners ι) (p : Port) : Listeners ι :=
  { s with
    isOpen := Function.update s.isOpen p false
    tasks := Function.update s.tasks p (s.tasks p).cancel }

/-- `if (acceptor_ && acceptor_->is_open()) acceptor_->close();` -/
def uninstallListener (s : Listeners ι) (p : Port) : Listeners ι :=
  if s.holdsAcceptors ∧ s.isOpen p = true then s.close p else s

/-- `signals_.cancel()`. -/
def uninstallSignalsHandler (s : Listeners ι) : Listeners ι :=
  { s with signals := s.signals.map (·.close .operationAborted) }

def closeAcceptors (s : Listeners ι) : Listeners ι :=
  { (s.close .http).close .https with holdsAcceptors := false }

/-- The listener after its accept. -/
def afterAccept (ec : ErrorCode) : ListenerTask :=
  if isAborted ec then .returned
  else if !checkEc ec then .leaving
  else .handling

variable [DecidableEq ι]

def act (s : Listeners ι) (a : Registry.Action ι) : Option (Listeners ι) :=
  (s.registry.step a).map fun registry => { s with registry }

def step (s : Listeners ι) : Event ι → Option (Listeners ι)
  | .checkShutdown p =>
    match s.tasks p with
    | .loop => some (s.setTask p (if s.registry.shutdownPending then .leaving else .starting))
    | _ => none
  | .startAccept p =>
    match s.tasks p with
    | .starting => some (s.setTask p (.accepting (.start (s.isOpen p) .badDescriptor)))
    | _ => none
  | .accepted p ec =>
    match s.tasks p with
    | .accepting .pending => some (s.setTask p (.accepting (.ready ec)))
    | _ => none
  | .resume p =>
    match s.tasks p with
    | .accepting (.ready ec) => some (s.setTask p (afterAccept ec))
    | _ => none
  | .dispatch p =>
    match s.tasks p with
    | .handling =>
      let task := if s.cfg.server.runMode = .SingleRequest then .leaving else .loop
      some { s.setTask p task with dispatched := s.dispatched ++ [p] }
    | _ => none
  | .cancelSignals p =>
    match s.tasks p with
    | .leaving => some (s.uninstallSignalsHandler.setTask p (.uninstalling .http))
    | _ => none
  | .uninstall p =>
    match s.tasks p with
    | .uninstalling .http => some ((s.uninstallListener .http).setTask p (.uninstalling .https))
    | .uninstalling .https => some ((s.uninstallListener .https).setTask p .returned)
    | _ => none
  | .signal =>
    match s.signals with
    | some .pending => some { s with signals := some (.ready .success) }
    | _ => none
  | .runSignalHandler =>
    match s.signals with
    | some (.ready ec) =>
      if checkEc ec then (s.act .scheduleShutdown).map ({ · with signals := none })
      else some { s with signals := none }
    | _ => none
  | .registry (.closeAcceptors k) => (s.act (.closeAcceptors k)).map (·.closeAcceptors)
  | .registry a => s.act a

end Listeners

end MarketBridge
