import MarketBridge.App
import MarketBridge.ConfigSpec
import MarketBridge.ResponseSpec

/-!
# Where a setting comes from

A setting is taken from the command line if its option is given, else from the JSON document if `--config` is
given and the document has its key, else it is kept. The ports are compared after both merges.
-/

namespace MarketBridge

/-! ### What is parsed -/

def Argument.option? : Argument → Option CliOption
  | .option o _ => some o
  | .invalid => none

def options (args : List Argument) : List CliOption := args.filterMap Argument.option?

@[simp] theorem options_cons (o : CliOption) (text : Bytes) (args : List Argument) :
    options (.option o text :: args) = o :: options args := rfl

/-- Each option is given at most once. -/
def Once (args : List Argument) : Prop := (options args).Nodup

/-- The text of an option, if it is given. -/
def given (args : List Argument) (o : CliOption) : Option Bytes :=
  args.findSome? fun
    | .option o' text => if o = o' then some text else none
    | .invalid => none

theorem given_cons (o o' : CliOption) (text : Bytes) (args : List Argument) :
    given (.option o' text :: args) o = if o = o' then some text else given args o := by
  unfold given
  rw [List.findSome?_cons]
  by_cases h : o = o' <;> simp [h]

theorem given_eq_none {args : List Argument} {o : CliOption} (h : o ∉ options args) :
    given args o = none := by
  induction args with
  | nil => rfl
  | cons a args ih =>
    cases a with
    | invalid => exact ih h
    | option o' text =>
      rw [options_cons, List.mem_cons, not_or] at h
      rw [given_cons, if_neg h.1]
      exact ih h.2

namespace Cxxopts

variable {cx : Cxxopts} {args : List Argument} {parsed parsed' : ParseResult} {cfg cfg' : Config}

theorem parse_cons {o : CliOption} {text : Bytes}
    (h : cx.parse (.option o text :: args) parsed cfg = (some parsed', cfg')) :
    ∃ x, cx.parseValue o text = some x ∧
      cx.parse args (Function.update parsed o (some x)) (store o text cfg) = (some parsed', cfg') := by
  rw [parse] at h
  split at h
  · cases h
  · rename_i x hx
    exact ⟨x, hx, h⟩

theorem store_configPath (o : CliOption) (text : Bytes) (cfg : Config) :
    store o text cfg = { cfg with configPath := if o = .config then text else cfg.configPath } := by
  cases o <;> rfl

/-- A parsed command line: the value of each option is that of its text. -/
theorem parse_spec (h : cx.parse args parsed cfg = (some parsed', cfg')) (hn : Once args) :
    (∀ o, match given args o with
      | some text => ∃ x, cx.parseValue o text = some x ∧ parsed' o = some x
      | none => parsed' o = parsed o) ∧
    cfg' = { cfg with configPath := (given args .config).getD cfg.configPath } := by
  induction args generalizing parsed cfg with
  | nil =>
    cases h
    exact ⟨fun o => rfl, rfl⟩
  | cons a args ih =>
    cases a with
    | invalid => cases h
    | option o text =>
      obtain ⟨x, hx, h⟩ := parse_cons h
      rw [Once, options_cons, List.nodup_cons] at hn
      obtain ⟨hp, hc⟩ := ih h hn.2
      refine ⟨fun o' => ?_, ?_⟩
      · have hp' := hp o'
        rw [given_cons]
        by_cases ho : o' = o
        · subst ho
          rw [given_eq_none hn.1, Function.update_self] at hp'
          rw [if_pos rfl]
          exact ⟨x, hx, hp'⟩
        · rw [if_neg ho]
          rwa [Function.update_of_ne ho] at hp'
      · rw [hc, given_cons, store_configPath]
        by_cases ho : o = .config
        · subst ho
          rw [given_eq_none hn.1, if_pos rfl]; rfl
        · rw [if_neg (Ne.symm ho), if_neg ho]

end Cxxopts

/-! ### What is merged -/

section

variable {α : Type} (value : Option α) (assign : α → Config → Config) (cfg : Config)

theorem proj_mergeOption {β : Type} (proj : Config → β) :
    proj (mergeOption value assign cfg) = value.elim (proj cfg) fun x => proj (assign x cfg) := by
  cases value <;> rfl

theorem elim_const {β : Type} (b : β) : (value.elim b fun _ => b) = b := by cases value <;> rfl

end

variable (parsed : ParseResult) (cfg : Config)

theorem merge_server : (mergeParsedArguments parsed cfg).server =
    { httpPort := (parsed .httpPort).elim cfg.server.httpPort id
      httpsPort := (parsed .httpsPort).elim cfg.server.httpsPort id
      runMode := (parsed .runMode).elim cfg.server.runMode fun word => mergeRunMode word cfg.server.runMode
      allowHttpsOverHttpPort := (parsed .allowHttpsOverHttpPort).elim cfg.server.allowHttpsOverHttpPort id
      workerThreads := cfg.server.workerThreads } := by
  simp only [mergeParsedArguments, proj_mergeOption _ _ _ Config.server, elim_const]
  cases parsed .httpPort <;> cases parsed .httpsPort <;> cases parsed .allowHttpsOverHttpPort <;>
    cases parsed .runMode <;> rfl

theorem merge_tls : (mergeParsedArguments parsed cfg).tls =
    { certificate := (parsed .certPath).elim cfg.tls.certificate id
      privateKey := (parsed .privateKey).elim cfg.tls.privateKey id } := by
  simp only [mergeParsedArguments, proj_mergeOption _ _ _ Config.tls, elim_const]
  cases parsed .certPath <;> cases parsed .privateKey <;> rfl

theorem merge_upstream : (mergeParsedArguments parsed cfg).upstream =
    { host := (parsed .upstreamHost).elim cfg.upstream.host id
      port := (parsed .upstreamPort).elim cfg.upstream.port id
      ignoreCertificateVerification :=
        (parsed .ignoreCertVerification).elim cfg.upstream.ignoreCertificateVerification id } := by
  simp only [mergeParsedArguments, proj_mergeOption _ _ _ Config.upstream, elim_const]
  cases parsed .upstreamHost <;> cases parsed .upstreamPort <;> cases parsed .ignoreCertVerification <;> rfl

theorem merge_logging : (mergeParsedArguments parsed cfg).logging =
    { output := (parsed .logOutput).elim cfg.logging.output fun word => mergeLogOutput word cfg.logging.output
      level := (parsed .logLevel).elim cfg.logging.level fromStr } := by
  simp only [mergeParsedArguments, proj_mergeOption _ _ _ Config.logging, elim_const]
  cases parsed .logOutput <;> cases parsed .logLevel <;> rfl

theorem merge_throttling : (mergeParsedArguments parsed cfg).throttling =
    { enabled := (parsed .throttlingEnabled).elim cfg.throttling.enabled id
      requestsPerSecond := (parsed .throttlingRequestsPerSecond).elim cfg.throttling.requestsPerSecond id
      burstSize := (parsed .throttlingBurstSize).elim cfg.throttling.burstSize id } := by
  simp only [mergeParsedArguments, proj_mergeOption _ _ _ Config.throttling, elim_const]
  cases parsed .throttlingEnabled <;> cases parsed .throttlingRequestsPerSecond <;>
    cases parsed .throttlingBurstSize <;> rfl

/-! ### The three levels -/

def PortText (cx : Cxxopts) (text : Bytes) (p : UInt16) : Prop := cx.integer text = some (p.toNat : Int)

def NumberText (cx : Cxxopts) (text : Bytes) (n : UInt32) : Prop := cx.integer text = some (n.toNat : Int)

def BoolText (cx : Cxxopts) (text : Bytes) (b : Bool) : Prop := cx.boolean text = some b

def WordText {α : Type} (words : List (Bytes × α)) (text : Bytes) (x : α) : Prop := (text, x) ∈ words

/-- The words are documented; every other text that `cxxopts` parses is. -/
def DocumentedText : CliOption → Bytes → Prop
  | .runMode, text => ∃ x, WordText runModeWords text x
  | .logOutput, text => ∃ x, WordText logOutputWords text x
  | .logLevel, text => ∃ x, WordText logLevelWords text x
  | _, _ => True

/-- The command line, if its option is given, else the next level. -/
def FromText {α : Type} (value : Bytes → α → Prop) (text : Option Bytes) (below : α → Prop) (new : α) : Prop :=
  match text with
  | some text => value text new
  | none => below new

/-- The key of the document, if there is a document. -/
def docLeaf (doc : Option Json) (sect key : Bytes) : Option Json := doc.bind (·.leaf? sect key)

/-- Every setting of `c'` is the one of the command line, of the document `doc` or of `c`. -/
structure Precedence (cx : Cxxopts) (args : List Argument) (doc : Option Json) (c c' : Config) : Prop where
  httpPort : FromText (PortText cx) (given args .httpPort)
    (Setting PortValue (docLeaf doc (lit "server") (lit "http_port")) c.server.httpPort) c'.server.httpPort
  httpsPort : FromText (PortText cx) (given args .httpsPort)
    (Setting PortValue (docLeaf doc (lit "server") (lit "https_port")) c.server.httpsPort) c'.server.httpsPort
  runMode : FromText (WordText runModeWords) (given args .runMode)
    (Setting (WordValue runModeWords) (docLeaf doc (lit "server") (lit "run_mode")) c.server.runMode)
    c'.server.runMode
  allowHttpsOverHttpPort : FromText (BoolText cx) (given args .allowHttpsOverHttpPort)
    (Setting BoolValue (docLeaf doc (lit "server") (lit "allow_https_over_http_port"))
      c.server.allowHttpsOverHttpPort) c'.server.allowHttpsOverHttpPort
  workerThreads : c'.server.workerThreads = c.server.workerThreads
  certificate : FromText Eq (given args .certPath)
    (Setting StringValue (docLeaf doc (lit "tls") (lit "certificate")) c.tls.certificate) c'.tls.certificate
  privateKey : FromText Eq (given args .privateKey)
    (Setting StringValue (docLeaf doc (lit "tls") (lit "private_key")) c.tls.privateKey) c'.tls.privateKey
  host : FromText Eq (given args .upstreamHost)
    (Setting NonEmptyValue (docLeaf doc (lit "upstream") (lit "host")) c.upstream.host) c'.upstream.host
  port : FromText (PortText cx) (given args .upstreamPort)
    (Setting PortValue (docLeaf doc (lit "upstream") (lit "port")) c.upstream.port) c'.upstream.port
  ignoreCertificateVerification : FromText (BoolText cx) (given args .ignoreCertVerification)
    (Setting BoolValue (docLeaf doc (lit "upstream") (lit "ignore_certificate_verification"))
      c.upstream.ignoreCertificateVerification) c'.upstream.ignoreCertificateVerification
  output : FromText (WordText logOutputWords) (given args .logOutput)
    (Setting (WordValue logOutputWords) (docLeaf doc (lit "logging") (lit "output")) c.logging.output)
    c'.logging.output
  level : FromText (WordText logLevelWords) (given args .logLevel)
    (Setting (WordValue logLevelWords) (docLeaf doc (lit "logging") (lit "level")) c.logging.level)
    c'.logging.level
  enabled : FromText (BoolText cx) (given args .throttlingEnabled)
    (Setting BoolValue (docLeaf doc (lit "throttling") (lit "enabled")) c.throttling.enabled)
    c'.throttling.enabled
  requestsPerSecond : FromText (NumberText cx) (given args .throttlingRequestsPerSecond)
    (Setting NumberValue (docLeaf doc (lit "throttling") (lit "requests_per_second"))
      c.throttling.requestsPerSecond) c'.throttling.requestsPerSecond
  burstSize : FromText (NumberText cx) (given args .throttlingBurstSize)
    (Setting NumberValue (docLeaf doc (lit "throttling") (lit "burst_size")) c.throttling.burstSize)
    c'.throttling.burstSize

section

variable {cx : Cxxopts}

theorem uint16_eq_some {text : Bytes} {p : UInt16} : cx.uint16 text = some p ↔ PortText cx text p := by
  unfold Cxxopts.uint16 PortText
  have hp := p.toNat_lt
  cases cx.integer text with
  | none => simp
  | some n =>
    show (if 0 ≤ n ∧ n < 2 ^ 16 then some (UInt16.ofNat n.toNat) else none) = some p ↔ _
    split
    · rw [Option.some.injEq, Option.some.injEq, ← UInt16.toNat_inj, UInt16.toNat_ofNat']
      omega
    · rw [Option.some.injEq]
      exact ⟨nofun, fun h => by omega⟩

theorem uint32_eq_some {text : Bytes} {n : UInt32} : cx.uint32 text = some n ↔ NumberText cx text n := by
  unfold Cxxopts.uint32 NumberText
  have hn := n.toNat_lt
  cases cx.integer text with
  | none => simp
  | some m =>
    show (if 0 ≤ m ∧ m < 2 ^ 32 then some (UInt32.ofNat m.toNat) else none) = some n ↔ _
    split
    · rw [Option.some.injEq, Option.some.injEq, ← UInt32.toNat_inj, UInt32.toNat_ofNat']
      omega
    · rw [Option.some.injEq]
      exact ⟨nofun, fun h => by omega⟩

theorem fromStr_of_mem {word : Bytes} {level : LogLevel} (h : (word, level) ∈ logLevelWords) :
    fromStr word = level := by
  have hlookup : logLevelWords.lookup word = some level := (lookup_eq_some_iff_mem (by decide)).2 h
  rw [fromStr, List.lookup_append, hlookup]; rfl

theorem mergeRunMode_of_mem {word : Bytes} {mode : ServerRunningMode} (h : (word, mode) ∈ runModeWords)
    (old : ServerRunningMode) : mergeRunMode word old = mode := by
  simp only [runModeWords, List.mem_cons, Prod.mk.injEq, List.not_mem_nil, or_false] at h
  rcases h with ⟨rfl, rfl⟩ | ⟨rfl, rfl⟩ <;> rfl

theorem mergeLogOutput_of_mem {word : Bytes} {output : LoggerType} (h : (word, output) ∈ logOutputWords)
    (old : LoggerType) : mergeLogOutput word old = output := by
  simp only [logOutputWords, List.mem_cons, Prod.mk.injEq, List.not_mem_nil, or_false] at h
  rcases h with ⟨rfl, rfl⟩ | ⟨rfl, rfl⟩ | ⟨rfl, rfl⟩ <;> rfl

end

/-! ### All three levels -/

/-- The document that `--config` names, if `loadJsonConfig` accepts it, or none without `--config`. -/
def NamedDocument (readValue : Bytes → Except Bytes (Json × Bytes)) (assignPath : Bytes → Loader)
    (args : List Argument) (c : Config) : Option Json → Prop
  | some d => ∃ path c', given args .config = some path ∧
      loadFromStream readValue (assignPath path) = .ok d ∧
      loadJsonConfig readValue (assignPath path) c = .ok () c'
  | none => given args .config = none

/-- Without a document everything is kept, as with an empty one. -/
theorem docLeaf_eq (doc : Option Json) (sect key : Bytes) :
    docLeaf doc sect key = (doc.getD (.object [])).leaf? sect key := by
  cases doc <;> rfl

theorem loaded_empty (c : Config) : Loaded (.object []) c c := by
  constructor <;> rfl

section

variable {cx : Cxxopts} {args : List Argument} {parsed : ParseResult} {c c₁ : Config}

theorem fromText_elim {α : Type} {o : CliOption} {value : Bytes → α → Prop} {below : α → Prop} {old : α}
    {f : o.Value → α} (hparsed : match given args o with
      | some text => ∃ x, cx.parseValue o text = some x ∧ parsed o = some x
      | none => parsed o = none)
    (hvalue : ∀ text x, given args o = some text → cx.parseValue o text = some x → value text (f x))
    (hbelow : below old) : FromText value (given args o) below ((parsed o).elim old f) := by
  unfold FromText
  cases hg : given args o with
  | none =>
    rw [hg] at hparsed
    rw [show parsed o = none from hparsed]
    exact hbelow
  | some text =>
    rw [hg] at hparsed
    obtain ⟨x, hx, hp⟩ := hparsed
    rw [hp]
    exact hvalue text x hg hx

theorem wordText_of_parsed {α : Type} {words : List (Bytes × α)} {text x : Bytes} {f : Bytes → α}
    (hdoc : ∃ a, WordText words text a) (hx : some text = some x)
    (hf : ∀ a, (x, a) ∈ words → f x = a) : WordText words text (f x) := by
  obtain ⟨a, ha⟩ := hdoc
  cases hx
  rw [hf a ha]
  exact ha

/-- The settings after both merges, `c₁` being those after the document. -/
theorem precedence_merge {doc : Option Json} {path : Bytes}
    (hparsed : ∀ o, match given args o with
      | some text => ∃ x, cx.parseValue o text = some x ∧ parsed o = some x
      | none => parsed o = none)
    (hdoc : ∀ o text, given args o = some text → DocumentedText o text)
    (hl : Loaded (doc.getD (.object [])) { c with configPath := path } c₁) :
    Precedence cx args doc c (mergeParsedArguments parsed c₁) := by
  constructor <;>
    simp only [merge_server, merge_tls, merge_upstream, merge_logging, merge_throttling, docLeaf_eq]
  case httpPort => exact fromText_elim (hparsed _) (fun _ _ _ hx => uint16_eq_some.1 hx) hl.httpPort
  case httpsPort => exact fromText_elim (hparsed _) (fun _ _ _ hx => uint16_eq_some.1 hx) hl.httpsPort
  case runMode =>
    exact fromText_elim (hparsed _)
      (fun _ _ hg hx => wordText_of_parsed (f := fun word => mergeRunMode word _) (hdoc _ _ hg) hx
        fun _ h => mergeRunMode_of_mem h _) hl.runMode
  case allowHttpsOverHttpPort =>
    exact fromText_elim (hparsed _) (fun _ _ _ hx => hx) hl.allowHttpsOverHttpPort
  case workerThreads => exact hl.workerThreads
  case certificate => exact fromText_elim (hparsed _) (fun _ _ _ hx => Option.some.inj hx) hl.certificate
  case privateKey => exact fromText_elim (hparsed _) (fun _ _ _ hx => Option.some.inj hx) hl.privateKey
  case host => exact fromText_elim (hparsed _) (fun _ _ _ hx => Option.some.inj hx) hl.host
  case port => exact fromText_elim (hparsed _) (fun _ _ _ hx => uint16_eq_some.1 hx) hl.port
  case ignoreCertificateVerification =>
    exact fromText_elim (hparsed _) (fun _ _ _ hx => hx) hl.ignoreCertificateVerification
  case output =>
    exact fromText_elim (hparsed _)
      (fun _ _ hg hx => wordText_of_parsed (f := fun word => mergeLogOutput word _) (hdoc _ _ hg) hx
        fun _ h => mergeLogOutput_of_mem h _) hl.output
  case level =>
    exact fromText_elim (hparsed _)
      (fun _ _ hg hx => wordText_of_parsed (hdoc _ _ hg) hx fun _ h => fromStr_of_mem h) hl.level
  case enabled => exact fromText_elim (hparsed _) (fun _ _ _ hx => hx) hl.enabled
  case requestsPerSecond =>
    exact fromText_elim (hparsed _) (fun _ _ _ hx => uint32_eq_some.1 hx) hl.requestsPerSecond
  case burstSize => exact fromText_elim (hparsed _) (fun _ _ _ hx => uint32_eq_some.1 hx) hl.burstSize

/-- The settings are merged before the ports are compared. -/
theorem processArguments_of_parse (readValue : Bytes → Except Bytes (Json × Bytes))
    (assignPath : Bytes → Loader) (hp : cx.parse args noOptions c = (some parsed, c₁))
    (hhelp : (parsed .help).isSome = false) {c₂ : Config}
    (hload : (if (parsed .config).isSome then loadJsonConfig readValue (assignPath c₁.configPath) c₁
      else .ok () c₁) = .ok () c₂) :
    ∃ result, processArguments cx readValue assignPath args c = .ok result (mergeParsedArguments parsed c₂) ∧
      result.usageRequested = false ∧
      (result.exitCode = 0 ↔ (mergeParsedArguments parsed c₂).server.httpPort ≠
        (mergeParsedArguments parsed c₂).server.httpsPort) := by
  unfold processArguments
  rw [hp]
  simp only [hhelp, hload, Bool.false_eq_true, if_false]
  split
  · rename_i heq
    exact ⟨_, rfl, rfl, by simp [heq]⟩
  · rename_i hne
    exact ⟨_, rfl, rfl, by simp [hne]⟩

end

/-- Each setting is the one of the command line, else of the document, else it is kept; the exit code is 0
exactly when the ports differ in the end. -/
theorem processArguments_precedence (cx : Cxxopts) (readValue : Bytes → Except Bytes (Json × Bytes))
    (assignPath : Bytes → Loader) (args : List Argument) (doc : Option Json) (c : Config)
    (haccept : (cx.parse args noOptions c).1.isSome = true) (honce : Once args)
    (hhelp : given args .help = none) (hdoc : ∀ o text, given args o = some text → DocumentedText o text)
    (hconfig : NamedDocument readValue assignPath args c doc) :
    ∃ result c', processArguments cx readValue assignPath args c = .ok result c' ∧
      Precedence cx args doc c c' ∧ result.usageRequested = false ∧
      (result.exitCode = 0 ↔ c'.server.httpPort ≠ c'.server.httpsPort) := by
  obtain ⟨parsed, hs⟩ := Option.isSome_iff_exists.1 haccept
  have hparse : cx.parse args noOptions c = (some parsed, (cx.parse args noOptions c).2) := Prod.ext hs rfl
  obtain ⟨hparsed, hpath⟩ := Cxxopts.parse_spec hparse honce
  rw [hpath] at hparse
  have hhelp' : (parsed .help).isSome = false := by
    have := hparsed .help
    rw [hhelp] at this
    rw [this]; rfl
  have hgiven := hparsed .config
  cases doc with
  | none =>
    rw [show given args .config = none from hconfig] at hgiven
    obtain ⟨result, hr, hu, hx⟩ := processArguments_of_parse readValue assignPath hparse hhelp'
      (by rw [hgiven]; rfl)
    exact ⟨result, _, hr, precedence_merge hparsed hdoc (loaded_empty _), hu, hx⟩
  | some d =>
    obtain ⟨path, c₁, hg, hd, hl⟩ := hconfig
    rw [hg] at hgiven hparse
    obtain ⟨text, -, hgiven⟩ := hgiven
    -- the document is accepted from whatever settings it is loaded into
    have hok : Documented d := by
      by_contra h
      obtain ⟨what, hw⟩ := loadJsonConfig_of_not_documented hd h c
      rw [hl] at hw
      cases hw
    obtain ⟨c₂, hload, hloaded⟩ := loadJsonConfig_of_documented hd hok { c with configPath := path }
    obtain ⟨result, hr, hu, hx⟩ := processArguments_of_parse readValue assignPath hparse hhelp'
      (by rw [hgiven]; exact hload)
    exact ⟨result, _, hr, precedence_merge hparsed hdoc hloaded, hu, hx⟩

/-- Decimal numbers without a sign, and `true` and `false`. -/
def plainCxxopts : Cxxopts where
  integer text := (decimal text).map fun n => (n : Int)
  boolean text := if text = lit "true" then some true else if text = lit "false" then some false else none

def portsArgs : List Argument :=
  [.option .httpPort (lit "9080"), .option .config (lit "bridge.json"), .option .runMode (lit "single-request")]

/-- `{"server": {"http_port": 9000, "https_port": 9443}}`. -/
def portsDocument : Json :=
  .object [(lit "server", .object
    [(lit "http_port", .numberUnsigned 9000), (lit "https_port", .numberUnsigned 9443)])]

def portsLoader (path : Bytes) : Loader :=
  LoadFromFile path (some (lit "\x7b\"server\": \x7b\"http_port\": 9000, \"https_port\": 9443\x7d\x7d"))

/-- The HTTP port of the command line, the HTTPS port of the document. -/
theorem processArguments_precedence_ports : ∃ result c',
    processArguments plainCxxopts (fun _ => .ok (portsDocument, [])) portsLoader portsArgs {} = .ok result c' ∧
      Precedence plainCxxopts portsArgs (some portsDocument) {} c' ∧ result.usageRequested = false ∧
      (result.exitCode = 0 ↔ c'.server.httpPort ≠ c'.server.httpsPort) := by
  have honce : Once portsArgs := by unfold Once; decide
  refine processArguments_precedence _ _ _ _ _ _ (by decide +kernel) honce (by decide) ?_
    ⟨lit "bridge.json", _, by decide, rfl, rfl⟩
  intro o text hg
  cases o with
  | runMode =>
    obtain rfl : text = lit "single-request" := Option.some.inj (hg.symm.trans (by decide))
    exact ⟨.SingleRequest, List.mem_cons_of_mem _ (List.mem_cons_self ..)⟩
  | logOutput => exact absurd (hg.symm.trans (by decide : _ = none)) nofun
  | logLevel => exact absurd (hg.symm.trans (by decide : _ = none)) nofun
  | _ => trivial

end MarketBridge
