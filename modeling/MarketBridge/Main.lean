import MarketBridge.App
import MarketBridge.System

/-!
# From the command line to the server (`main.cpp`)

`main` builds the settings, the logger and the server, and runs it. Whether the logger can be set up and whether a
port can be listened on is up to the host; a failure of either is an exception that `main` catches.
-/

namespace MarketBridge

structure Host where
  initLogger : LoggerType → LogLevel → Bool
  canListen : UInt16 → Bool

/-- `init_acceptors` does not throw. -/
def Host.initAcceptors (host : Host) (cfg : Config) : Bool :=
  host.canListen cfg.server.httpPort &&
    (cfg.server.httpsPort == cfg.server.httpPort || host.canListen cfg.server.httpsPort)

inductive MainResult
  | returned (exitCode : Int)
  | running (cfg : Config)  -- in `Server::run`, after its installing calls
deriving DecidableEq

section

variable (host : Host) (cx : Cxxopts) (readValue : Bytes → Except Bytes (Json × Bytes))
  (assignPath : Bytes → Loader)

/-- `args` are the arguments after the name of the program. -/
def main (args : List Argument) : MainResult :=
  let processed := if args.isEmpty then .ok {} {} else processArguments cx readValue assignPath args {}
  match processed with
  | .error _ _ => .returned 1
  | .ok result cfg =>
    if result.exitCode ≠ 0 then .returned result.exitCode
    else if result.usageRequested then .returned 0
    else if !host.initLogger cfg.logging.output cfg.logging.level then .returned 1
    else if !host.initAcceptors cfg then .returned 1
    else .running cfg

end

variable {host : Host} {cx : Cxxopts} {readValue : Bytes → Except Bytes (Json × Bytes)}
  {assignPath : Bytes → Loader} {args : List Argument} {cfg : Config}

/-- The settings that nothing has changed have two ports. -/
theorem processArguments_nil : processArguments cx readValue assignPath [] {} = .ok {} {} := rfl

theorem processArguments_ok {c : Config} {result : ProcessResult}
    (h : processArguments cx readValue assignPath args c = .ok result cfg) (hcode : result.exitCode = 0)
    (husage : result.usageRequested = false) : result = {} ∧ cfg.server.httpPort ≠ cfg.server.httpsPort := by
  unfold processArguments at h
  split at h
  · cases h
    cases hcode
  · split at h
    · cases h
      cases husage
    · dsimp only at h
      split at h
      · cases h
      · split at h
        · cases h
          cases hcode
        · rename_i hne
          cases h
          exact ⟨rfl, hne⟩

/-- The server is run with the settings that `process_arguments` leaves, if it accepts the arguments. -/
theorem main_eq_running : main host cx readValue assignPath args = .running cfg ↔
    processArguments cx readValue assignPath args {} = .ok {} cfg ∧
      host.initLogger cfg.logging.output cfg.logging.level = true ∧ host.initAcceptors cfg = true := by
  have hargs : (if args.isEmpty then .ok {} {} else processArguments cx readValue assignPath args {}) =
      processArguments cx readValue assignPath args {} := by
    cases args with
    | nil => exact processArguments_nil.symm
    | cons => rfl
  unfold main
  rw [hargs]
  generalize hp : processArguments cx readValue assignPath args {} = processed
  cases processed with
  | error what c => simp
  | ok result c =>
    dsimp only
    by_cases hcode : result.exitCode = 0
    · cases husage : result.usageRequested with
      | true =>
        have hne : result ≠ {} := by
          rintro rfl
          cases husage
        simp [hcode, hne]
      | false =>
        obtain ⟨rfl, -⟩ := processArguments_ok hp hcode husage
        cases hlogger : host.initLogger c.logging.output c.logging.level <;>
          cases hacceptors : host.initAcceptors c <;> simp <;> rintro rfl <;> simp [hlogger, hacceptors]
    · have hne : result ≠ {} := by
        rintro rfl
        exact hcode rfl
      simp [hcode, hne]

/-- A server that `main` runs has a listener in its loop on each of its two ports. -/
theorem main_listens (h : main host cx readValue assignPath args = .running cfg) (memory : ConnId → Bytes)
    (now : ℚ) (p : Port) : hasAcceptor cfg p = true ∧ (System.new cfg memory now).listeners.isOpen p = true ∧
      (System.new cfg memory now).listeners.tasks p = .loop := by
  have hne := (processArguments_ok (main_eq_running.1 h).1 rfl rfl).2
  have hp : hasAcceptor cfg p = true := by
    cases p with
    | http => rfl
    | https => exact bne_iff_ne.2 hne.symm
  refine ⟨hp, hp, ?_⟩
  show (if hasAcceptor cfg p then ListenerTask.loop else .returned) = _
  rw [hp]
  rfl

end MarketBridge
