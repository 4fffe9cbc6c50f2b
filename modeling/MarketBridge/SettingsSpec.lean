import MarketBridge.AppSpec

/-!
# One setting, two ways to give it

Nine settings can be given by an option and by a key of the JSON document. A text on the command line is the
integer `cxxopts` reads in it where the option is a number, else it is itself; `Overlooked` are the values
that the document refuses and the command line passes over: the port 0, the empty host and every word that is
not one of the documented words. They are all on which the two ways differ, the comparison of the ports apart,
which is made on the command line only.
-/

namespace MarketBridge

inductive SharedSetting
  | httpPort | httpsPort | upstreamPort | upstreamHost | runMode | logOutput | logLevel
  | requestsPerSecond | burstSize
deriving DecidableEq, Repr

inductive Value
  | text (s : Bytes)
  | integer (n : Int)
deriving DecidableEq, Repr

/-- A value in a document. A number that does not fit 64 bits is read as a floating-point one. -/
def Value.json (float : UInt64) : Value → Json
  | text s => .string s
  | integer n =>
    if 0 ≤ n ∧ n < 2 ^ 64 then .numberUnsigned (UInt64.ofNat n.toNat)
    else if -2 ^ 63 ≤ n ∧ n < 0 then .numberInteger (Int64.ofInt n)
    else .numberFloat float

namespace SharedSetting

def option : SharedSetting → CliOption
  | httpPort => .httpPort
  | httpsPort => .httpsPort
  | upstreamPort => .upstreamPort
  | upstreamHost => .upstreamHost
  | runMode => .runMode
  | logOutput => .logOutput
  | logLevel => .logLevel
  | requestsPerSecond => .throttlingRequestsPerSecond
  | burstSize => .throttlingBurstSize

def sect : SharedSetting → Bytes
  | httpPort | httpsPort | runMode => lit "server"
  | upstreamPort | upstreamHost => lit "upstream"
  | logOutput | logLevel => lit "logging"
  | requestsPerSecond | burstSize => lit "throttling"

def key : SharedSetting → Bytes
  | httpPort => lit "http_port"
  | httpsPort => lit "https_port"
  | upstreamPort => lit "port"
  | upstreamHost => lit "host"
  | runMode => lit "run_mode"
  | logOutput => lit "output"
  | logLevel => lit "level"
  | requestsPerSecond => lit "requests_per_second"
  | burstSize => lit "burst_size"

/-- The document that gives this setting and no other. -/
def document (s : SharedSetting) (j : Json) : Json := .object [(s.sect, .object [(s.key, j)])]

/-- What a text on the command line says. -/
def value (cx : Cxxopts) : SharedSetting → Bytes → Value
  | httpPort, t | httpsPort, t | upstreamPort, t | requestsPerSecond, t | burstSize, t =>
    (cx.integer t).elim (.text t) .integer
  | upstreamHost, t | runMode, t | logOutput, t | logLevel, t => .text t

/-- The values that the key of the document takes. -/
def DocumentedValue : SharedSetting → Value → Prop
  | httpPort, v | httpsPort, v | upstreamPort, v => ∃ n, v = .integer n ∧ 1 ≤ n ∧ n < 2 ^ 16
  | requestsPerSecond, v | burstSize, v => ∃ n, v = .integer n ∧ 0 ≤ n ∧ n < 2 ^ 32
  | upstreamHost, v => ∃ w, v = .text w ∧ w ≠ []
  | runMode, v => ∃ w x, v = .text w ∧ (w, x) ∈ runModeWords
  | logOutput, v => ∃ w x, v = .text w ∧ (w, x) ∈ logOutputWords
  | logLevel, v => ∃ w x, v = .text w ∧ (w, x) ∈ logLevelWords

/-- Refused in a document, accepted on the command line. -/
def Overlooked : SharedSetting → Value → Prop
  | httpPort, v | httpsPort, v | upstreamPort, v => v = .integer 0
  | requestsPerSecond, _ | burstSize, _ => False
  | upstreamHost, v => v = .text []
  | runMode, v => ∃ w, v = .text w ∧ ∀ x, (w, x) ∉ runModeWords
  | logOutput, v => ∃ w, v = .text w ∧ ∀ x, (w, x) ∉ logOutputWords
  | logLevel, v => ∃ w, v = .text w ∧ ∀ x, (w, x) ∉ logLevelWords

/-- With this value the ports are equal. -/
def SamePorts (c : Config) : SharedSetting → Value → Prop
  | httpPort, v => v = .integer c.server.httpsPort.toNat
  | httpsPort, v => v = .integer c.server.httpPort.toNat
  | _, _ => c.server.httpPort = c.server.httpsPort

end SharedSetting

/-! ### The two ways -/

section

variable (readValue : Bytes → Except Bytes (Json × Bytes))

/-- The settings after loading a document, if that succeeds. -/
def byDocument (loader : Loader) (c : Config) : Option Config :=
  match loadJsonConfig readValue loader c with
  | .ok _ c' => some c'
  | .error _ _ => none

variable (cx : Cxxopts) (assignPath : Bytes → Loader)

/-- The settings after a command line, unless it cannot be parsed. -/
def byOption (args : List Argument) (c : Config) : Option Config :=
  match processArguments cx readValue assignPath args c with
  | .ok result c' => if result.refusal = some .parsingError then none else some c'
  | .error _ _ => none

/-- The settings after a command line, if the exit code is 0. -/
def byExitCode (args : List Argument) (c : Config) : Option Config :=
  match processArguments cx readValue assignPath args c with
  | .ok result c' => if result.exitCode = 0 then some c' else none
  | .error _ _ => none

end

/-- One succeeds if and only if the other does, and then with the same settings. -/
def Agree (a b : Option Config) : Prop :=
  (a.isSome = true ↔ b.isSome = true) ∧ ∀ c₁ c₂, a = some c₁ → b = some c₂ → c₁ = c₂

theorem agree_iff {a b : Option Config} : Agree a b ↔ a = b := by
  constructor
  · rintro ⟨hs, he⟩
    cases a with
    | none =>
      cases b with
      | none => rfl
      | some c => cases hs.2 rfl
    | some c₁ =>
      obtain ⟨c₂, rfl⟩ := Option.isSome_iff_exists.1 (hs.1 rfl)
      rw [he c₁ c₂ rfl rfl]
  · rintro rfl
    exact ⟨Iff.rfl, fun c₁ c₂ h₁ h₂ => Option.some.inj (h₁.symm.trans h₂)⟩

/-! ### Through the document -/

section

open MonadExcept (ofExcept)

variable {sect key : Bytes} {j : Json} {allowed : List Bytes}

theorem find?_single : (Json.object [(key, j)]).find? key = some j := by
  show List.lookup key [(key, j)] = _
  rw [List.lookup_cons, beq_self_eq_true]

theorem find?_single_of_ne {k : Bytes} (h : (k == key) = false) :
    (Json.object [(key, j)]).find? k = none := by
  show List.lookup k [(key, j)] = none
  rw [List.lookup_cons, h]; rfl

theorem mergeSection_single {leaves : Json → EStateM Bytes Config Unit} (h : key ∈ allowed) :
    mergeSection (.object [(sect, .object [(key, j)])]) sect allowed leaves =
      leaves (.object [(key, j)]) := by
  have hk : validateKeys (.object [(key, j)]) allowed sect = .ok () :=
    validateKeys_ok.2 fun kv hkv => by rw [List.mem_singleton.1 hkv]; exact h
  unfold mergeSection
  rw [find?_single]
  show (ofExcept (obtainObject (.object [(key, j)]) sect) >>= fun _ =>
    ofExcept (validateKeys (.object [(key, j)]) allowed sect) >>= fun _ => leaves _) = _
  rw [hk]; rfl

theorem mergeSection_single_of_ne {k : Bytes} {leaves : Json → EStateM Bytes Config Unit}
    (h : (k == sect) = false) : mergeSection (.object [(sect, j)]) k allowed leaves = pure () := by
  unfold mergeSection; rw [find?_single_of_ne h]

variable {α : Type} {read : Json → Except Bytes α} {assign : α → Config → Config}

theorem mergeLeaf_single : mergeLeaf (.object [(key, j)]) key read assign =
    ofExcept (read j) >>= fun x => modify (assign x) := by
  unfold mergeLeaf; rw [find?_single]

theorem mergeLeaf_single_of_ne {k : Bytes} (h : (k == key) = false) :
    mergeLeaf (.object [(key, j)]) k read assign = pure () := by
  unfold mergeLeaf; rw [find?_single_of_ne h]

theorem mergeJsonConfig_of_object {members : List (Bytes × Json)} (h : ∀ kv ∈ members, kv.1 ∈ rootKeys) :
    mergeJsonConfig (.object members) = (do
      mergeServer (.object members)
      mergeTLS (.object members)
      mergeUpstream (.object members)
      mergeLogging (.object members)
      mergeThrottling (.object members)) := by
  have hk : validateKeys (.object members) rootKeys (lit "root") = .ok () := validateKeys_ok.2 h
  show (ofExcept (obtainObject (.object members) _) >>= fun _ =>
    ofExcept (validateKeys (.object members) rootKeys (lit "root")) >>= fun _ => _) = _
  rw [hk]; rfl

/-- What the document of a setting does. -/
theorem mergeJsonConfig_document (s : SharedSetting) (j : Json) : mergeJsonConfig (s.document j) = match s with
    | .httpPort => ofExcept (readPort (lit "server.http_port") j) >>= fun x =>
        modify fun c => { c with server := { c.server with httpPort := x } }
    | .httpsPort => ofExcept (readPort (lit "server.https_port") j) >>= fun x =>
        modify fun c => { c with server := { c.server with httpsPort := x } }
    | .upstreamPort => ofExcept (readPort (lit "upstream.port") j) >>= fun x =>
        modify fun c => { c with upstream := { c.upstream with port := x } }
    | .upstreamHost => ofExcept (readString (lit "upstream.host") false j) >>= fun x =>
        modify fun c => { c with upstream := { c.upstream with host := x } }
    | .runMode => ofExcept (readRunMode j) >>= fun x =>
        modify fun c => { c with server := { c.server with runMode := x } }
    | .logOutput => ofExcept (readLogOutput j) >>= fun x =>
        modify fun c => { c with logging := { c.logging with output := x } }
    | .logLevel => ofExcept (readLogLevel j) >>= fun x =>
        modify fun c => { c with logging := { c.logging with level := x } }
    | .requestsPerSecond => ofExcept (readUInt32 (lit "throttling.requests_per_second") j) >>= fun x =>
        modify fun c => { c with throttling := { c.throttling with requestsPerSecond := x } }
    | .burstSize => ofExcept (readUInt32 (lit "throttling.burst_size") j) >>= fun x =>
        modify fun c => { c with throttling := { c.throttling with burstSize := x } } := by
  have hroot : ∀ kv ∈ [(s.sect, Json.object [(s.key, j)])], kv.1 ∈ rootKeys := by
    intro kv hkv
    rw [List.mem_singleton.1 hkv]
    show s.sect ∈ rootKeys
    cases s <;> decide
  rw [SharedSetting.document, mergeJsonConfig_of_object hroot]
  unfold mergeServer mergeTLS mergeUpstream mergeLogging mergeThrottling
  cases s <;> simp (disch := decide) only [SharedSetting.sect, SharedSetting.key, mergeSection_single,
    mergeSection_single_of_ne, mergeLeaf_single, mergeLeaf_single_of_ne, pure_bind, bind_pure_unit]

theorem byDocument_of_merge {readValue : Bytes → Except Bytes (Json × Bytes)} {loader : Loader} {d : Json}
    (hd : loadFromStream readValue loader = .ok d) {r : Except Bytes α}
    (h : mergeJsonConfig d = ofExcept r >>= fun x => modify (assign x)) (c : Config) :
    byDocument readValue loader c = r.toOption.map (assign · c) := by
  unfold byDocument loadJsonConfig
  rw [hd]
  simp only [h]
  cases r <;> rfl

end

/-! ### Through the option -/

section

variable {readValue : Bytes → Except Bytes (Json × Bytes)} {cx : Cxxopts} {assignPath : Bytes → Loader}

/-- A single option other than `--config` and `--help`. -/
theorem processArguments_option (s : SharedSetting) (t : Bytes) (c : Config) :
    processArguments cx readValue assignPath [.option s.option t] c =
      match cx.parseValue s.option t with
      | none => .ok { exitCode := 1, refusal := some .parsingError } c
      | some x =>
        let c' := mergeParsedArguments (Function.update noOptions s.option (some x)) c
        if c'.server.httpPort = c'.server.httpsPort then .ok { exitCode := 1, refusal := some .equalPorts } c'
        else .ok {} c' := by
  unfold processArguments
  rw [Cxxopts.parse]
  cases cx.parseValue s.option t with
  | none => rfl
  | some x => cases s <;> rfl

theorem byOption_eq (s : SharedSetting) (t : Bytes) (c : Config) :
    byOption readValue cx assignPath [.option s.option t] c = (cx.parseValue s.option t).map fun x =>
      mergeParsedArguments (Function.update noOptions s.option (some x)) c := by
  rw [byOption, processArguments_option]
  cases cx.parseValue s.option t with
  | none => rfl
  | some x =>
    dsimp only
    split
    · rename_i h
      split at h <;> cases h <;> rfl
    · rename_i h
      split at h <;> cases h

/-- The exit code is 0 if the command line is parsed and the ports differ. -/
theorem byExitCode_eq (s : SharedSetting) (t : Bytes) (c : Config) :
    byExitCode readValue cx assignPath [.option s.option t] c =
      (byOption readValue cx assignPath [.option s.option t] c).filter fun c' =>
        c'.server.httpPort ≠ c'.server.httpsPort := by
  rw [byOption_eq, byExitCode, processArguments_option]
  cases cx.parseValue s.option t with
  | none => rfl
  | some x =>
    rw [Option.map_some, Option.filter_some]
    dsimp only
    split
    · rename_i h
      split at h <;> cases h <;> simp [*]
    · rename_i h
      split at h <;> cases h

end

/-! ### What is made of a value -/

/-- A documented value is treated the same by both, an overlooked one is refused in the document only, every
other one by both. -/
structure Treated {α : Type} (documented overlooked : Prop) (option document : Option α) : Prop where
  same : documented → document = option
  refused : ¬ documented → document = none
  accepted : option.isSome = true ↔ documented ∨ overlooked
  apart : overlooked → ¬ documented

theorem Treated.map {α β : Type} {documented overlooked : Prop} {option document : Option α}
    (h : Treated documented overlooked option document) (f : α → β) :
    Treated documented overlooked (option.map f) (document.map f) where
  same hd := by rw [h.same hd]
  refused hd := by rw [h.refused hd]; rfl
  accepted := by rw [Option.isSome_map]; exact h.accepted
  apart := h.apart

section

variable {α : Type} {documented overlooked : Prop} {option document : Option α}

theorem Treated.eq_iff (h : Treated documented overlooked option document) :
    option = document ↔ ¬ overlooked := by
  constructor
  · intro he ho
    have hs := h.accepted.2 (.inr ho)
    rw [he, h.refused (h.apart ho)] at hs
    cases hs
  · intro ho
    by_cases hd : documented
    · exact (h.same hd).symm
    · rw [h.refused hd, ← Option.not_isSome_iff_eq_none, h.accepted]
      exact not_or.2 ⟨hd, ho⟩

/-- Where the option succeeds only with `p`, that is unless `bad`. -/
theorem Treated.filter_eq_iff (h : Treated documented overlooked option document) {p : α → Bool} {bad : Prop}
    (hp : ∀ x, option = some x → (p x = true ↔ ¬ bad)) :
    option.filter p = document ↔ (overlooked → bad) ∧ (documented → ¬ bad) := by
  by_cases hd : documented
  · have ho : ¬ overlooked := fun ho => h.apart ho hd
    obtain ⟨x, hx⟩ := Option.isSome_iff_exists.1 (h.accepted.2 (.inl hd))
    rw [h.same hd, hx, Option.filter_eq_some_iff]
    simp only [true_and, hp x hx, ho, hd, forall_true_left, false_implies]
  · rw [h.refused hd, Option.filter_eq_none_iff]
    simp only [hd, false_implies, and_true]
    constructor
    · intro hn ho
      obtain ⟨x, hx⟩ := Option.isSome_iff_exists.1 (h.accepted.2 (.inr ho))
      by_contra hb
      exact hn x hx ((hp x hx).2 hb)
    · intro ho x hx hpx
      have hs := h.accepted.1 (by rw [hx]; rfl)
      exact (hp x hx).1 hpx (ho (hs.resolve_left hd))

end

theorem toOption_eq_some {α : Type} {r : Except Bytes α} {x : α} : r.toOption = some x ↔ r = .ok x := by
  cases r with
  | ok y => exact ⟨fun h => by rw [Option.some.inj h], fun h => by cases h; rfl⟩
  | error e => exact ⟨nofun, nofun⟩

theorem toOption_eq_none_of_decides {α : Type} {read : Json → Except Bytes α} {R : Json → α → Prop}
    (hread : Accept.Decides read R) {v : Json} (h : ∀ x, ¬ R v x) : (read v).toOption = none := by
  cases hr : read v with
  | ok x => exact absurd ((hread v x).1 hr) (h x)
  | error e => rfl

theorem int?_json (float : UInt64) (n : Int) :
    ((Value.integer n).json float).int? = if -2 ^ 63 ≤ n ∧ n < 2 ^ 64 then some n else none := by
  unfold Value.json
  dsimp only
  split
  · rename_i h
    rw [if_pos (by omega), Json.int?, UInt64.toNat_ofNat_of_lt' (show n.toNat < 2 ^ 64 by omega)]
    exact congrArg some (Int.toNat_of_nonneg h.1)
  · split
    · rename_i h
      rw [if_pos (by omega), Json.int?, Int64.toInt_ofInt_of_le h.1 (by omega)]
    · rw [if_neg (by omega)]; rfl

theorem exists_uint16_iff (n : Int) : (∃ p : UInt16, (p.toNat : Int) = n) ↔ 0 ≤ n ∧ n < 2 ^ 16 := by
  constructor
  · rintro ⟨p, rfl⟩
    have := p.toNat_lt
    omega
  · intro h
    refine ⟨UInt16.ofNat n.toNat, ?_⟩
    rw [UInt16.toNat_ofNat_of_lt' (show n.toNat < 2 ^ 16 by omega)]
    omega

theorem exists_uint32_iff (n : Int) : (∃ x : UInt32, (x.toNat : Int) = n) ↔ 0 ≤ n ∧ n < 2 ^ 32 := by
  constructor
  · rintro ⟨x, rfl⟩
    have := x.toNat_lt
    omega
  · intro h
    refine ⟨UInt32.ofNat n.toNat, ?_⟩
    rw [UInt32.toNat_ofNat_of_lt' (show n.toNat < 2 ^ 32 by omega)]
    omega

section

variable {cx : Cxxopts} {t : Bytes} (float : UInt64)

/-- An option with the values below `hi` and a reader with those from `lo` on. -/
theorem treated_integer {α : Type} {toInt : α → Int} {lo hi : Int} (hlo : 0 ≤ lo) (hhi : hi ≤ 2 ^ 64)
    (hrange : ∀ n, (∃ x, toInt x = n) ↔ 0 ≤ n ∧ n < hi) {parsed : Option α}
    (hparsed : ∀ x, parsed = some x ↔ cx.integer t = some (toInt x)) {read : Json → Except Bytes α}
    (hread : Accept.Decides read fun v x => v.int? = some (toInt x) ∧ lo ≤ toInt x) :
    let v : Value := (cx.integer t).elim (.text t) .integer
    Treated (∃ n, v = .integer n ∧ lo ≤ n ∧ n < hi) (∃ n, v = .integer n ∧ 0 ≤ n ∧ n < lo ∧ n < hi) parsed
      (read (v.json float)).toOption := by
  intro v
  have hnone (h : ∀ n, v ≠ .integer n ∨ ¬ (lo ≤ n ∧ n < hi)) : (read (v.json float)).toOption = none := by
    refine toOption_eq_none_of_decides hread fun x ⟨hx, hle⟩ => ?_
    obtain ⟨h0, h1⟩ := (hrange _).1 ⟨x, rfl⟩
    cases hv : v with
    | text w => rw [hv] at hx; cases hx
    | integer n =>
      rw [hv, int?_json] at hx
      split at hx
      · obtain rfl : n = toInt x := Option.some.inj hx
        rcases h _ with h | h
        · exact h hv
        · exact h ⟨hle, h1⟩
      · cases hx
  cases ht : cx.integer t with
  | none =>
    have hv : v = .text t := by show Option.elim _ _ _ = _; rw [ht]; rfl
    have hp : parsed = none := Option.eq_none_iff_forall_ne_some.2 fun x h => by
      rw [hparsed, ht] at h; cases h
    rw [hv] at hnone ⊢
    have hno {P : Int → Prop} : ¬ ∃ n, Value.text t = .integer n ∧ P n := fun ⟨n, hn, _⟩ => nomatch hn
    refine ⟨fun h => absurd h hno, fun _ => hnone fun n => .inl nofun, ?_, fun h => absurd h hno⟩
    rw [hp]
    exact ⟨nofun, fun h => h.elim (absurd · hno) (absurd · hno)⟩
  | some n =>
    have hv : v = .integer n := by show Option.elim _ _ _ = _; rw [ht]; rfl
    rw [hv] at hnone ⊢
    simp only [Value.integer.injEq, exists_eq_left']
    refine ⟨fun h => ?_, fun h => hnone fun m => ?_, ?_, fun h => by omega⟩
    · obtain ⟨x, rfl⟩ := (hrange n).2 ⟨by omega, h.2⟩
      rw [(hparsed x).2 ht, toOption_eq_some, hread]
      exact ⟨(int?_json float _).trans (if_pos (by omega)), h.1⟩
    · rcases eq_or_ne n m with rfl | hne
      · exact .inr h
      · exact .inl fun he => hne (Value.integer.inj he)
    · have hs : parsed.isSome = true ↔ ∃ x, toInt x = n := by
        rw [Option.isSome_iff_exists]
        simp only [hparsed, ht, Option.some.injEq, eq_comm]
      rw [hs, hrange]
      omega

theorem treated_port (name : Bytes) :
    let v : Value := (cx.integer t).elim (.text t) .integer
    Treated (∃ n, v = .integer n ∧ 1 ≤ n ∧ n < 2 ^ 16) (v = .integer 0) (cx.uint16 t)
      (readPort name (v.json float)).toOption := by
  intro v
  have hread : Accept.Decides (readPort name) fun v (p : UInt16) =>
      v.int? = some (p.toNat : Int) ∧ 1 ≤ (p.toNat : Int) := by
    intro v p
    rw [readPort_decides name v p, PortValue]
    exact and_congr_right fun _ => by omega
  have hzero : v = .integer 0 ↔ ∃ n, v = .integer n ∧ 0 ≤ n ∧ n < 1 ∧ n < 2 ^ 16 := by
    constructor
    · exact fun h => ⟨0, h, by decide⟩
    · rintro ⟨n, h, h0, h1, -⟩
      rwa [show n = 0 by omega] at h
  rw [hzero]
  exact treated_integer float (by decide) (by decide) exists_uint16_iff (fun p => uint16_eq_some) hread

theorem treated_number (name : Bytes) :
    let v : Value := (cx.integer t).elim (.text t) .integer
    Treated (∃ n, v = .integer n ∧ 0 ≤ n ∧ n < 2 ^ 32) False (cx.uint32 t)
      (readUInt32 name (v.json float)).toOption := by
  intro v
  have hread : Accept.Decides (readUInt32 name) fun v (x : UInt32) =>
      v.int? = some (x.toNat : Int) ∧ 0 ≤ (x.toNat : Int) := by
    intro v x
    rw [readUInt32_decides name v x, NumberValue]
    exact ⟨fun h => ⟨h, by omega⟩, And.left⟩
  have hnever : False ↔ ∃ n, v = .integer n ∧ 0 ≤ n ∧ n < 0 ∧ n < 2 ^ 32 := by
    constructor
    · exact False.elim
    · rintro ⟨n, -, h0, h1, -⟩
      omega
  rw [hnever]
  exact treated_integer float (by decide) (by decide) exists_uint32_iff (fun x => uint32_eq_some) hread

theorem treated_host (name : Bytes) :
    let v : Value := .text t
    Treated (∃ w, v = .text w ∧ w ≠ []) (v = .text []) (some t)
      (readString name false (v.json float)).toOption where
  same := by
    rintro ⟨w, hw, hne⟩
    rw [Value.text.injEq] at hw
    subst hw
    exact toOption_eq_some.2 ((readString_nonEmpty_decides name _ _).2 ⟨rfl, hne⟩)
  refused h := toOption_eq_none_of_decides (readString_nonEmpty_decides name) fun s hs => by
    obtain ⟨he, hne⟩ := hs
    cases he
    exact h ⟨t, rfl, hne⟩
  accepted := by
    simp only [Value.text.injEq, exists_eq_left', Option.isSome_some, true_iff]
    exact em' (t = [])
  apart := by
    rintro he ⟨w, hw, hne⟩
    rw [he, Value.text.injEq] at hw
    exact hne hw.symm

theorem treated_word {α : Type} {words : List (Bytes × α)} (hn : (words.map (·.1)).Nodup)
    (name expected : Bytes) {new : α} (hnew : ∀ x, (t, x) ∈ words → new = x) :
    let v : Value := .text t
    Treated (∃ w x, v = .text w ∧ (w, x) ∈ words) (∃ w, v = .text w ∧ ∀ x, (w, x) ∉ words) (some new)
      (readWord name words expected (v.json float)).toOption where
  same := by
    rintro ⟨w, x, hw, hx⟩
    rw [Value.text.injEq] at hw
    subst hw
    rw [toOption_eq_some, readWord_decides name expected hn, hnew x hx]
    exact ⟨t, rfl, hx⟩
  refused h := toOption_eq_none_of_decides (readWord_decides name expected hn) fun x hx => by
    obtain ⟨w, hw, hx⟩ := hx
    cases hw
    exact h ⟨t, x, rfl, hx⟩
  accepted := by
    refine ⟨fun _ => ?_, fun _ => rfl⟩
    by_cases h : ∃ x, (t, x) ∈ words
    · obtain ⟨x, hx⟩ := h
      exact .inl ⟨t, x, rfl, hx⟩
    · exact .inr ⟨t, rfl, not_exists.1 h⟩
  apart := by
    rintro ⟨w, hw, h⟩ ⟨w', x, hw', hx⟩
    rw [hw, Value.text.injEq] at hw'
    exact h x (hw' ▸ hx)

/-- Nine settings, four kinds of values. -/
theorem treated (s : SharedSetting) {readValue : Bytes → Except Bytes (Json × Bytes)}
    (assignPath : Bytes → Loader) {loader : Loader}
    (hd : loadFromStream readValue loader = .ok (s.document ((s.value cx t).json float))) (c : Config) :
    Treated (s.DocumentedValue (s.value cx t)) (s.Overlooked (s.value cx t))
      (byOption readValue cx assignPath [.option s.option t] c) (byDocument readValue loader c) := by
  have hm := mergeJsonConfig_document s ((s.value cx t).json float)
  rw [byOption_eq]
  cases s <;> rw [byDocument_of_merge hd hm]
  case httpPort => exact (treated_port float _).map _
  case httpsPort => exact (treated_port float _).map _
  case upstreamPort => exact (treated_port float _).map _
  case upstreamHost => exact (treated_host float _).map _
  case runMode =>
    exact (treated_word float (by decide) _ _ fun x hx => mergeRunMode_of_mem hx c.server.runMode).map
      fun x => { c with server := { c.server with runMode := x } }
  case logOutput =>
    exact (treated_word float (by decide) _ _ fun x hx => mergeLogOutput_of_mem hx c.logging.output).map
      fun x => { c with logging := { c.logging with output := x } }
  case logLevel =>
    exact (treated_word float (by decide) _ _ fun x hx => fromStr_of_mem hx).map
      fun x => { c with logging := { c.logging with level := x } }
  case requestsPerSecond => exact (treated_number float _).map _
  case burstSize => exact (treated_number float _).map _

/-- The ports after the option. -/
theorem samePorts_iff (s : SharedSetting) {readValue : Bytes → Except Bytes (Json × Bytes)}
    {assignPath : Bytes → Loader} {c c' : Config}
    (h : byOption readValue cx assignPath [.option s.option t] c = some c') :
    c'.server.httpPort = c'.server.httpsPort ↔ s.SamePorts c (s.value cx t) := by
  rw [byOption_eq] at h
  obtain ⟨x, hx, rfl⟩ := Option.map_eq_some_iff.1 h
  have hport {p q : UInt16} (hp : cx.uint16 t = some p) :
      (cx.integer t).elim (.text t) .integer = Value.integer q.toNat ↔ p = q := by
    rw [show cx.integer t = some (p.toNat : Int) from uint16_eq_some.1 hp, Option.elim,
      Value.integer.injEq, Int.natCast_inj, UInt16.toNat_inj]
  cases s with
  | httpPort => exact (hport hx).symm
  | httpsPort => exact eq_comm.trans (hport hx).symm
  | _ => exact Iff.rfl

end

/-- The two ways agree on a value if and only if it is not overlooked. If success is the exit code 0, what
matters besides is whether the ports are equal afterwards. -/
theorem ways_agree_iff (cx : Cxxopts) (readValue : Bytes → Except Bytes (Json × Bytes))
    (assignPath : Bytes → Loader) (loader : Loader) (s : SharedSetting) (t : Bytes) (float : UInt64)
    (c : Config)
    (hd : loadFromStream readValue loader = .ok (s.document ((s.value cx t).json float))) :
    (Agree (byOption readValue cx assignPath [.option s.option t] c) (byDocument readValue loader c) ↔
      ¬ s.Overlooked (s.value cx t)) ∧
    (Agree (byExitCode readValue cx assignPath [.option s.option t] c) (byDocument readValue loader c) ↔
      (s.Overlooked (s.value cx t) → s.SamePorts c (s.value cx t)) ∧
      (s.DocumentedValue (s.value cx t) → ¬ s.SamePorts c (s.value cx t))) := by
  have ht := treated float s assignPath hd c
  rw [agree_iff, agree_iff, byExitCode_eq]
  refine ⟨ht.eq_iff, ht.filter_eq_iff fun c' hc' => ?_⟩
  rw [decide_eq_true_iff, ne_eq, samePorts_iff s hc']

/-- A reader of texts that hold `d`. -/
def readerOf (d : Json) : Bytes → Except Bytes (Json × Bytes) := fun _ => .ok (d, [])

def singleRequestLoader : Loader :=
  LoadFromString (lit "\x7b\"server\": \x7b\"run_mode\": \"single-request\"\x7d\x7d")

theorem ways_agree_iff_single :
    let reader := readerOf (SharedSetting.runMode.document (.string (lit "single-request")))
    Agree (byOption reader plainCxxopts LoadFromString [.option .runMode (lit "single-request")] {})
      (byDocument reader singleRequestLoader {}) := by
  refine (ways_agree_iff plainCxxopts _ _ _ .runMode (lit "single-request") 0 {} rfl).1.2 ?_
  rintro ⟨w, hw, h⟩
  obtain rfl : lit "single-request" = w := Value.text.inj hw
  exact h .SingleRequest (List.mem_cons_of_mem _ (List.mem_cons_self ..))

def onceLoader : Loader := LoadFromString (lit "\x7b\"server\": \x7b\"run_mode\": \"once\"\x7d\x7d")

/-- `--run-mode once` is passed over, `{"server": {"run_mode": "once"}}` is refused. -/
theorem unknown_run_mode_ignored :
    let reader := readerOf (SharedSetting.runMode.document (.string (lit "once")))
    let args : List Argument := [.option .runMode (lit "once")]
    processArguments plainCxxopts reader LoadFromString args {} = .ok {} {} ∧
      (∃ what, loadJsonConfig reader onceLoader {} = .error what {}) ∧
      ¬ Agree (byOption reader plainCxxopts LoadFromString args {}) (byDocument reader onceLoader {}) ∧
      ¬ Agree (byExitCode reader plainCxxopts LoadFromString args {}) (byDocument reader onceLoader {}) := by
  refine ⟨rfl, ⟨_, rfl⟩, fun h => ?_, fun h => ?_⟩
  · cases h.1.1 rfl
  · cases h.1.1 rfl

end MarketBridge
