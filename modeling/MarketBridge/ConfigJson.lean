import MarketBridge.Config

/-!
# Settings from a JSON document (`config/config_json.cpp`)

`mergeJsonConfig` updates a `Config` setting by setting and throws (`Except.error` with the text of the
exception) at the first that is wrong, leaving the earlier updates in place; `loadJsonConfig` runs it on a
copy. A parsed document is a `nlohmann::json`; the JSON reader itself is a parameter.
-/

namespace MarketBridge

open MonadExcept (ofExcept)

/-- `nlohmann::json`. An object lists its members in key order. -/
inductive Json
  | null
  | boolean (b : Bool)
  | numberInteger (n : Int64)
  | numberUnsigned (n : UInt64)
  | numberFloat (bits : UInt64)
  | string (s : Bytes)
  | array (elements : List Json)
  | object (members : List (Bytes × Json))

namespace Json

def isObject : Json → Bool
  | object _ => true
  | _ => false

def isString : Json → Bool
  | string _ => true
  | _ => false

def isBoolean : Json → Bool
  | boolean _ => true
  | _ => false

def isNumberUnsigned : Json → Bool
  | numberUnsigned _ => true
  | _ => false

def isNumberInteger : Json → Bool
  | numberInteger _ | numberUnsigned _ => true
  | _ => false

def items : Json → List (Bytes × Json)
  | object members => members
  | _ => []

def find? (j : Json) (key : Bytes) : Option Json := j.items.lookup key

/-- `get<std::int64_t>()` on a stored integer; an unsigned one is converted modulo `2 ^ 64`. -/
def getInt64 : Json → Int64
  | numberInteger n => n
  | numberUnsigned n => n.toInt64
  | _ => 0  -- the callers have checked the kind

/-- `get<std::uint64_t>()` on a stored integer. -/
def getUInt64 : Json → UInt64
  | numberInteger n => n.toUInt64
  | numberUnsigned n => n
  | _ => 0

def getString : Json → Bytes
  | string s => s
  | _ => []

def getBool : Json → Bool
  | boolean b => b
  | _ => false

end Json

/-! ### Readers -/

def minPort : Int64 := 1
def maxPort : Int64 := 65535

def obtainObject (value : Json) (name : Bytes) : Except Bytes Unit :=
  if !value.isObject then .error (name ++ lit " expected be a JSON object") else .ok ()

def validateKeys (object : Json) (allowed : List Bytes) (name : Bytes) : Except Bytes Unit :=
  forM object.items fun kv =>
    if kv.1 ∈ allowed then .ok ()
    else .error (lit "unknown configuration property: " ++ name ++ lit "." ++ kv.1)

def readPort (name : Bytes) (value : Json) : Except Bytes UInt16 :=
  if !value.isNumberUnsigned && !value.isNumberInteger then .error (name ++ lit " expected be an integer")
  else
    let port := value.getInt64
    if port < minPort ∨ port > maxPort then
      .error (name ++ lit " expected be between " ++ lit (toString minPort) ++ lit " and " ++
        lit (toString maxPort))
    else .ok port.toUInt64.toUInt16

def readString (name : Bytes) (allowEmpty : Bool) (value : Json) : Except Bytes Bytes :=
  if !value.isString then .error (name ++ lit " expected be a string")
  else
    let result := value.getString
    if !allowEmpty && result.isEmpty then .error (name ++ lit " expected not be empty") else .ok result

def readBool (name : Bytes) (value : Json) : Except Bytes Bool :=
  if !value.isBoolean then .error (name ++ lit " expected be a boolean") else .ok value.getBool

def maxUInt32 : UInt64 := 4294967295

def readUInt32 (name : Bytes) (value : Json) : Except Bytes UInt32 :=
  let outOfRange := name ++ lit " expected be between 0 and " ++ lit (toString maxUInt32)
  if !value.isNumberUnsigned && !value.isNumberInteger then .error (name ++ lit " expected be an integer")
  else if value.isNumberUnsigned then
    let number := value.getUInt64
    if number ≤ maxUInt32 then .ok number.toUInt32 else .error outOfRange
  else
    let number := value.getInt64
    if 0 ≤ number ∧ number.toUInt64 ≤ maxUInt32 then .ok number.toUInt64.toUInt32 else .error outOfRange

def readWord {α : Type} (name : Bytes) (words : List (Bytes × α)) (expected : Bytes) (value : Json) :
    Except Bytes α :=
  match readString name true value with
  | .error e => .error e
  | .ok word =>
    match words.lookup word with
    | some x => .ok x
    | none => .error (name ++ lit " expected be " ++ expected)

def runModeWords : List (Bytes × ServerRunningMode) :=
  [(lit "persist", .Persistent), (lit "single-request", .SingleRequest)]

def readRunMode : Json → Except Bytes ServerRunningMode :=
  readWord (lit "server.run_mode") runModeWords (lit "'persist' or 'single-request'")

def logOutputWords : List (Bytes × LoggerType) :=
  [(lit "console", .Console), (lit "con", .Console), (lit "file", .File)]

def readLogOutput : Json → Except Bytes LoggerType :=
  readWord (lit "logging.output") logOutputWords (lit "'console', 'con', or 'file'")

def logLevelWords : List (Bytes × LogLevel) :=
  [(lit "trace", .trace), (lit "debug", .debug), (lit "info", .info), (lit "warning", .warn),
   (lit "error", .err), (lit "critical", .critical), (lit "off", .off)]

def readLogLevel : Json → Except Bytes LogLevel :=
  readWord (lit "logging.level") logLevelWords
    (lit "'trace', 'debug', 'info', 'warning', 'error', 'critical', or 'off'")

/-! ### Merging -/

/-- `if (it->contains(key)) config.field = read(it->at(key));` -/
def mergeLeaf {α : Type} (it : Json) (key : Bytes) (read : Json → Except Bytes α)
    (assign : α → Config → Config) : EStateM Bytes Config Unit :=
  match it.find? key with
  | none => pure ()
  | some value => ofExcept (read value) >>= fun x => modify (assign x)

/-- `if (const auto it = root.find(key); it != root.end()) { ... }` for a section with its allowed keys. -/
def mergeSection (root : Json) (key : Bytes) (allowed : List Bytes)
    (leaves : Json → EStateM Bytes Config Unit) : EStateM Bytes Config Unit :=
  match root.find? key with
  | none => pure ()
  | some it => do
    ofExcept (obtainObject it key)
    ofExcept (validateKeys it allowed key)
    leaves it

def serverKeys : List Bytes :=
  [lit "http_port", lit "https_port", lit "run_mode", lit "allow_https_over_http_port"]
def tlsKeys : List Bytes := [lit "certificate", lit "private_key"]
def upstreamKeys : List Bytes := [lit "host", lit "port", lit "ignore_certificate_verification"]
def loggingKeys : List Bytes := [lit "output", lit "level"]
def throttlingKeys : List Bytes := [lit "enabled", lit "requests_per_second", lit "burst_size"]
def rootKeys : List Bytes := [lit "server", lit "tls", lit "upstream", lit "logging", lit "throttling"]

def mergeServer (root : Json) : EStateM Bytes Config Unit :=
  mergeSection root (lit "server") serverKeys fun it => do
    mergeLeaf it (lit "http_port") (readPort (lit "server.http_port"))
      fun x c => { c with server := { c.server with httpPort := x } }
    mergeLeaf it (lit "https_port") (readPort (lit "server.https_port"))
      fun x c => { c with server := { c.server with httpsPort := x } }
    mergeLeaf it (lit "run_mode") readRunMode
      fun x c => { c with server := { c.server with runMode := x } }
    mergeLeaf it (lit "allow_https_over_http_port") (readBool (lit "server.allow_https_over_http_port"))
      fun x c => { c with server := { c.server with allowHttpsOverHttpPort := x } }

def mergeTLS (root : Json) : EStateM Bytes Config Unit :=
  mergeSection root (lit "tls") tlsKeys fun it => do
    mergeLeaf it (lit "certificate") (readString (lit "tls.certificate") true)
      fun x c => { c with tls := { c.tls with certificate := x } }
    mergeLeaf it (lit "private_key") (readString (lit "tls.private_key") true)
      fun x c => { c with tls := { c.tls with privateKey := x } }

def mergeUpstream (root : Json) : EStateM Bytes Config Unit :=
  mergeSection root (lit "upstream") upstreamKeys fun it => do
    mergeLeaf it (lit "host") (readString (lit "upstream.host") false)
      fun x c => { c with upstream := { c.upstream with host := x } }
    mergeLeaf it (lit "port") (readPort (lit "upstream.port"))
      fun x c => { c with upstream := { c.upstream with port := x } }
    mergeLeaf it (lit "ignore_certificate_verification")
      (readBool (lit "upstream.ignore_certificate_verification"))
      fun x c => { c with upstream := { c.upstream with ignoreCertificateVerification := x } }

def mergeLogging (root : Json) : EStateM Bytes Config Unit :=
  mergeSection root (lit "logging") loggingKeys fun it => do
    mergeLeaf it (lit "output") readLogOutput
      fun x c => { c with logging := { c.logging with output := x } }
    mergeLeaf it (lit "level") readLogLevel
      fun x c => { c with logging := { c.logging with level := x } }

def mergeThrottling (root : Json) : EStateM Bytes Config Unit :=
  mergeSection root (lit "throttling") throttlingKeys fun it => do
    mergeLeaf it (lit "enabled") (readBool (lit "throttling.enabled"))
      fun x c => { c with throttling := { c.throttling with enabled := x } }
    mergeLeaf it (lit "requests_per_second") (readUInt32 (lit "throttling.requests_per_second"))
      fun x c => { c with throttling := { c.throttling with requestsPerSecond := x } }
    mergeLeaf it (lit "burst_size") (readUInt32 (lit "throttling.burst_size"))
      fun x c => { c with throttling := { c.throttling with burstSize := x } }

def mergeJsonConfig (root : Json) : EStateM Bytes Config Unit := do
  ofExcept (obtainObject root (lit "configuration root"))
  ofExcept (validateKeys root rootKeys (lit "root"))
  mergeServer root
  mergeTLS root
  mergeUpstream root
  mergeLogging root
  mergeThrottling root

/-! ### Loading -/

/-- `LoadFromFile` or `LoadFromString`: `open` is the text of the stream, or the text of the exception
when the file cannot be opened. -/
structure Loader where
  source : Bytes
  open? : Except Bytes Bytes

def LoadFromString (str : Bytes) : Loader := ⟨str, .ok str⟩

/-- `content` is what the file holds, if it can be opened. -/
def LoadFromFile (path : Bytes) (content : Option Bytes) : Loader :=
  ⟨path, match content with
    | some text => .ok text
    | none => .error (lit "cannot open file")⟩

def loadFailure (loader : Loader) (what : Bytes) : Bytes :=
  lit "failed to load configuration '" ++ loader.source ++ lit "': " ++ what

section

-- `s >> document`: the value at the front of the text and the text after it, or the parse error
variable (readValue : Bytes → Except Bytes (Json × Bytes))

def loadFromStream (loader : Loader) : Except Bytes Json :=
  match loader.open? with
  | .error what => .error (loadFailure loader what)
  | .ok s =>
    match readValue s with
    | .error what => .error (loadFailure loader what)
    | .ok (document, _) => .ok document

/-- The copy `merged_config` is merged into; the target is assigned only if that returns. -/
def loadJsonConfig (loader : Loader) : EStateM Bytes Config Unit := fun config =>
  match loadFromStream readValue loader with
  | .error what => .error (loadFailure loader what) config
  | .ok document =>
    match mergeJsonConfig document config with
    | .ok _ mergedConfig => .ok () mergedConfig
    | .error what _ => .error (loadFailure loader what) config

end

end MarketBridge
