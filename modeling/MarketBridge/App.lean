import MarketBridge.ConfigJson
import Mathlib.Algebra.Ring.Int.Defs
import Mathlib.Logic.Function.Basic

/-!
# The command line (`common/app.h`)

`processArguments` parses the arguments, loads the JSON file if one is named, merges the parsed values and
compares the ports. `cxxopts` and `spdlog` are libraries: `Cxxopts` and `fromStr` say what is assumed of them,
as they document it.
-/

namespace MarketBridge

inductive CliOption
  | httpPort | httpsPort | logOutput | runMode | logLevel | certPath | privateKey | ignoreCertVerification
  | upstreamHost | upstreamPort | allowHttpsOverHttpPort | throttlingEnabled
  | throttlingRequestsPerSecond | throttlingBurstSize | config | help
deriving DecidableEq, Repr

/-- The type of an option's value. -/
abbrev CliOption.Value : CliOption → Type
  | httpPort | httpsPort | upstreamPort => UInt16
  | throttlingRequestsPerSecond | throttlingBurstSize => UInt32
  | ignoreCertVerification | allowHttpsOverHttpPort | throttlingEnabled | help => Bool
  | logOutput | runMode | logLevel | certPath | privateKey | upstreamHost | config => Bytes

/-- The assumed behaviour of `cxxopts`. Which integer and which truth value a text denotes is left to it; what
follows for the options of each type, and how the arguments are gone through, is what it documents. -/
structure Cxxopts where
  integer : Bytes → Option Int
  boolean : Bytes → Option Bool

/-- An argument: an option with its text (the implicit one is `true`), or what `cxxopts` does not know. -/
inductive Argument
  | option (o : CliOption) (text : Bytes)
  | invalid
deriving DecidableEq, Repr

/-- The value of an option, if it was given. -/
abbrev ParseResult := (o : CliOption) → Option o.Value

def noOptions : ParseResult := fun _ => none

namespace Cxxopts

variable (cx : Cxxopts)

/-- An unsigned option is assumed to be parsed exactly when its integer fits the type. -/
def uint16 (text : Bytes) : Option UInt16 :=
  match cx.integer text with
  | some n => if 0 ≤ n ∧ n < 2 ^ 16 then some (UInt16.ofNat n.toNat) else none
  | none => none

def uint32 (text : Bytes) : Option UInt32 :=
  match cx.integer text with
  | some n => if 0 ≤ n ∧ n < 2 ^ 32 then some (UInt32.ofNat n.toNat) else none
  | none => none

def parseValue : (o : CliOption) → Bytes → Option o.Value
  | .httpPort | .httpsPort | .upstreamPort => cx.uint16
  | .throttlingRequestsPerSecond | .throttlingBurstSize => cx.uint32
  | .ignoreCertVerification | .allowHttpsOverHttpPort | .throttlingEnabled | .help => cx.boolean
  | .logOutput | .runMode | .logLevel | .certPath | .privateKey | .upstreamHost | .config => some

/-- The value of `--config` is stored in `cfg.config_path`. -/
def store : CliOption → Bytes → Config → Config
  | .config, text, cfg => { cfg with configPath := text }
  | _, _, cfg => cfg

/-- `options.parse` as `cxxopts` documents it, or `none` when it throws: the arguments are parsed from left to
right, the first one that is wrong ends it, and the last value of an option counts. -/
def parse : List Argument → ParseResult → Config → Option ParseResult × Config
  | [], parsed, cfg => (some parsed, cfg)
  | .invalid :: _, _, cfg => (none, cfg)
  | .option o text :: args, parsed, cfg =>
    match cx.parseValue o text with
    | none => (none, cfg)
    | some x => parse args (Function.update parsed o (some x)) (store o text cfg)

end Cxxopts

/-! ### Merging -/

/-- `if (parsed_args.count(o)) target_cfg.field = parsed_args[o].as<T>();` -/
def mergeOption {α : Type} (value : Option α) (assign : α → Config → Config) (cfg : Config) : Config :=
  match value with
  | some x => assign x cfg
  | none => cfg

/-- The documented behaviour of `spdlog::level::from_str`, assumed here: the names of the levels and the two
short ones are known, any other word is `off`. -/
def fromStr (name : Bytes) : LogLevel :=
  ((logLevelWords ++ [(lit "warn", LogLevel.warn), (lit "err", LogLevel.err)]).lookup name).getD .off

def mergeLogOutput (logType : Bytes) (output : LoggerType) : LoggerType :=
  if logType = lit "con" ∨ logType = lit "console" then .Console
  else if logType = lit "file" then .File
  else output

def mergeRunMode (runningMode : Bytes) (runMode : ServerRunningMode) : ServerRunningMode :=
  if runningMode = lit "single-request" then .SingleRequest
  else if runningMode = lit "persist" then .Persistent
  else runMode

def mergeParsedArguments (parsed : ParseResult) (cfg : Config) : Config :=
  let cfg := mergeOption (parsed .httpPort)
    (fun x c => { c with server := { c.server with httpPort := x } }) cfg
  let cfg := mergeOption (parsed .httpsPort)
    (fun x c => { c with server := { c.server with httpsPort := x } }) cfg
  let cfg := mergeOption (parsed .certPath) (fun x c => { c with tls := { c.tls with certificate := x } }) cfg
  let cfg := mergeOption (parsed .privateKey) (fun x c => { c with tls := { c.tls with privateKey := x } }) cfg
  let cfg := mergeOption (parsed .ignoreCertVerification)
    (fun x c => { c with upstream := { c.upstream with ignoreCertificateVerification := x } }) cfg
  let cfg := mergeOption (parsed .upstreamHost)
    (fun x c => { c with upstream := { c.upstream with host := x } }) cfg
  let cfg := mergeOption (parsed .upstreamPort)
    (fun x c => { c with upstream := { c.upstream with port := x } }) cfg
  let cfg := mergeOption (parsed .allowHttpsOverHttpPort)
    (fun x c => { c with server := { c.server with allowHttpsOverHttpPort := x } }) cfg
  let cfg := mergeOption (parsed .throttlingEnabled)
    (fun x c => { c with throttling := { c.throttling with enabled := x } }) cfg
  let cfg := mergeOption (parsed .throttlingRequestsPerSecond)
    (fun x c => { c with throttling := { c.throttling with requestsPerSecond := x } }) cfg
  let cfg := mergeOption (parsed .throttlingBurstSize)
    (fun x c => { c with throttling := { c.throttling with burstSize := x } }) cfg
  let cfg := mergeOption (parsed .logLevel)
    (fun x c => { c with logging := { c.logging with level := fromStr x } }) cfg
  let cfg := mergeOption (parsed .logOutput)
    (fun x c => { c with logging := { c.logging with output := mergeLogOutput x c.logging.output } }) cfg
  mergeOption (parsed .runMode)
    (fun x c => { c with server := { c.server with runMode := mergeRunMode x c.server.runMode } }) cfg

/-! ### `process_arguments` -/

/-- What is printed when the arguments are refused. -/
inductive Refusal
  | parsingError  -- "command line arguments parsing error: ..."
  | equalPorts    -- "http-port and https-port must be different"
deriving DecidableEq, Repr

structure ProcessResult where
  exitCode : Int := 0
  usageRequested : Bool := false
  refusal : Option Refusal := none
deriving DecidableEq, Repr

section

variable (cx : Cxxopts) (readValue : Bytes → Except Bytes (Json × Bytes))
-- the loader after `assign_path`
variable (assignPath : Bytes → Loader)

/-- Only the exceptions of `cxxopts` are caught, so what `load_json_config` throws gets out. -/
def processArguments (args : List Argument) : EStateM Bytes Config ProcessResult := fun cfg =>
  match cx.parse args noOptions cfg with
  | (none, cfg) => .ok { exitCode := 1, refusal := some .parsingError } cfg
  | (some parsed, cfg) =>
    if (parsed .help).isSome then .ok { usageRequested := true } cfg
    else
      let loaded := if (parsed .config).isSome then loadJsonConfig readValue (assignPath cfg.configPath) cfg
        else .ok () cfg
      match loaded with
      | .error what cfg => .error what cfg
      | .ok _ cfg =>
        let cfg := mergeParsedArguments parsed cfg
        if cfg.server.httpPort = cfg.server.httpsPort then
          .ok { exitCode := 1, refusal := some .equalPorts } cfg
        else .ok {} cfg

end

end MarketBridge
