import MarketBridge.ConfigJson
import MarketBridge.Lib.Accept
import Mathlib.Algebra.Ring.Int.Defs

/-!
# The documented schema of the JSON configuration

`Documented d`: every key of `d` is known and every present leaf has its documented type and range.
`Loaded d c c'`: every setting of `c'` is the value in `d` when `d` has its key, else the one of `c`.
`loadJsonConfig` loads the documented documents, with that result, and no others.
-/

namespace MarketBridge

open Accept

/-! ### What the leaves mean -/

/-- The integer of a JSON number without fraction and exponent. -/
def Json.int? : Json → Option Int
  | numberInteger n => some n.toInt
  | numberUnsigned n => some n.toNat
  | _ => none

def PortValue (v : Json) (p : UInt16) : Prop := v.int? = some (p.toNat : Int) ∧ 1 ≤ p.toNat

def NumberValue (v : Json) (n : UInt32) : Prop := v.int? = some (n.toNat : Int)

def BoolValue (v : Json) (b : Bool) : Prop := v = .boolean b

def StringValue (v : Json) (s : Bytes) : Prop := v = .string s

def NonEmptyValue (v : Json) (s : Bytes) : Prop := v = .string s ∧ s ≠ []

def WordValue {α : Type} (words : List (Bytes × α)) (v : Json) (x : α) : Prop :=
  ∃ w, v = .string w ∧ (w, x) ∈ words

theorem getInt64_toInt {v : Json} {n : Int} (h : v.int? = some n) :
    v.getInt64.toInt = if n < 2 ^ 63 then n else n - 2 ^ 64 := by
  cases v with
  | numberInteger m =>
    obtain rfl : m.toInt = n := by simpa [Json.int?] using h
    have := Int64.toInt_lt m
    rw [if_pos this]; rfl
  | numberUnsigned m =>
    obtain rfl : (m.toNat : Int) = n := by simpa [Json.int?] using h
    rw [show (Json.numberUnsigned m).getInt64 = m.toInt64 from rfl, Int64.toInt,
      BitVec.toInt_eq_toNat_cond, UInt64.toBitVec_toInt64, UInt64.toNat_toBitVec]
    split <;> split <;> omega
  | _ => simp [Json.int?] at h

theorem int?_bounds {v : Json} {n : Int} (h : v.int? = some n) : -2 ^ 63 ≤ n ∧ n < 2 ^ 64 := by
  cases v with
  | numberInteger m =>
    obtain rfl : m.toInt = n := by simpa [Json.int?] using h
    have := Int64.toInt_lt m
    exact ⟨Int64.le_toInt m, by omega⟩
  | numberUnsigned m =>
    obtain rfl : (m.toNat : Int) = n := by simpa [Json.int?] using h
    have := m.toNat_lt
    omega
  | _ => simp [Json.int?] at h

theorem isNumber_iff {v : Json} :
    (!v.isNumberUnsigned && !v.isNumberInteger) = false ↔ ∃ n, v.int? = some n := by
  cases v <;> simp [Json.isNumberUnsigned, Json.isNumberInteger, Json.int?]

theorem toNat_toUInt64_of_nonneg {p : Int64} (h : 0 ≤ p.toInt) : (p.toUInt64.toNat : Int) = p.toInt := by
  have hb : p.toBitVec.toNat = p.toUInt64.toNat := rfl
  have := p.toUInt64.toNat_lt
  rw [Int64.toInt, BitVec.toInt_eq_toNat_cond, hb] at h ⊢
  split at h <;> split <;> omega

/-! ### The readers decide the leaves -/

theorem readPort_decides (name : Bytes) : Decides (readPort name) PortValue := by
  intro v p
  unfold readPort PortValue
  cases hk : (!v.isNumberUnsigned && !v.isNumberInteger) with
  | true =>
    have : ¬ ∃ n, v.int? = some n := fun h => by simp [isNumber_iff.2 h] at hk
    simp only [if_true, reduceCtorEq, false_iff, not_and]
    exact fun h => absurd ⟨_, h⟩ this
  | false =>
    obtain ⟨n, hn⟩ := isNumber_iff.1 hk
    have hi := getInt64_toInt hn
    have hb := int?_bounds hn
    have hmin : minPort.toInt = 1 := by decide
    have hmax : maxPort.toInt = 65535 := by decide
    have hp := p.toNat_lt
    simp only [Bool.false_eq_true, if_false, gt_iff_lt, Int64.lt_iff_toInt_lt, hmin, hmax, hn,
      Option.some.injEq]
    split
    · -- out of range, also where the conversion has wrapped
      rename_i hr
      simp only [reduceCtorEq, false_iff]
      split at hi <;> omega
    · rename_i hr
      have h64 := toNat_toUInt64_of_nonneg (p := v.getInt64) (by omega)
      rw [Except.ok.injEq, ← UInt16.toNat_inj, UInt64.toNat_toUInt16]
      split at hi <;> omega

theorem readUInt32_decides (name : Bytes) : Decides (readUInt32 name) NumberValue := by
  intro v x
  unfold readUInt32 NumberValue
  have hx := x.toNat_lt
  have hmax : maxUInt32.toNat = 4294967295 := by decide
  cases v with
  | numberUnsigned m =>
    simp only [Json.isNumberUnsigned, Json.getUInt64, Json.int?, Bool.not_true, Bool.false_and,
      Bool.false_eq_true, if_false, if_true, UInt64.le_iff_toNat_le, hmax, Option.some.injEq]
    split
    · rw [Except.ok.injEq, ← UInt32.toNat_inj, UInt64.toNat_toUInt32]; omega
    · simp only [reduceCtorEq, false_iff]; omega
  | numberInteger m =>
    simp only [Json.isNumberUnsigned, Json.isNumberInteger, Json.getInt64, Json.int?, Bool.not_true,
      Bool.not_false, Bool.and_false, Bool.false_eq_true, if_false, UInt64.le_iff_toNat_le, hmax,
      Int64.le_iff_toInt_le, Option.some.injEq, show (0 : Int64).toInt = 0 by decide]
    split
    · rename_i hr
      have := toNat_toUInt64_of_nonneg hr.1
      rw [Except.ok.injEq, ← UInt32.toNat_inj, UInt64.toNat_toUInt32]; omega
    · rename_i hr
      simp only [reduceCtorEq, false_iff]
      intro hm
      have := toNat_toUInt64_of_nonneg (p := m) (by omega)
      omega
  | _ => simp [Json.isNumberUnsigned, Json.isNumberInteger, Json.int?]

theorem readBool_decides (name : Bytes) : Decides (readBool name) BoolValue := by
  intro v b
  cases v <;> simp [readBool, BoolValue, Json.isBoolean, Json.getBool]

theorem readString_decides (name : Bytes) : Decides (readString name true) StringValue := by
  intro v s
  cases v <;> simp [readString, StringValue, Json.isString, Json.getString]

theorem readString_nonEmpty_decides (name : Bytes) : Decides (readString name false) NonEmptyValue := by
  intro v s
  cases v with
  | string t =>
    cases t <;> simp [readString, NonEmptyValue, Json.isString, Json.getString]
    rintro rfl; simp
  | _ => simp [readString, NonEmptyValue, Json.isString]

theorem lookup_eq_some_iff_mem {α : Type} {words : List (Bytes × α)} (hn : (words.map (·.1)).Nodup)
    {w : Bytes} {x : α} : words.lookup w = some x ↔ (w, x) ∈ words := by
  induction words with
  | nil => simp
  | cons p words ih =>
    obtain ⟨k, y⟩ := p
    rw [List.map_cons, List.nodup_cons] at hn
    rw [List.lookup_cons, List.mem_cons]
    by_cases hk : w = k
    · subst hk
      have : (w, x) ∉ words := fun h => hn.1 (List.mem_map.2 ⟨_, h, rfl⟩)
      simp [this, eq_comm]
    · have : (w == k) = false := by simpa using hk
      simp [this, hk, ih hn.2]

theorem readWord_decides {α : Type} (name expected : Bytes) {words : List (Bytes × α)}
    (hn : (words.map (·.1)).Nodup) : Decides (readWord name words expected) (WordValue words) := by
  intro v x
  unfold readWord WordValue
  have hs := readString_decides name v
  cases hr : readString name true v with
  | error e =>
    simp only [reduceCtorEq, false_iff]
    rintro ⟨w, hw, -⟩
    rw [(hs w).2 hw] at hr
    cases hr
  | ok w =>
    obtain rfl : v = .string w := (hs w).1 hr
    simp only [Json.string.injEq, exists_eq_left', ← lookup_eq_some_iff_mem hn]
    cases words.lookup w <;> simp

/-! ### The schema -/

/-- The value of `section.key`, if the document has it. -/
def Json.leaf? (d : Json) (sect key : Bytes) : Option Json := (d.find? sect).bind (·.find? key)

def SectionOk (d : Json) (sect : Bytes) (keys : List Bytes) : Prop :=
  ∀ it, d.find? sect = some it → it.isObject = true ∧ ∀ kv ∈ it.items, kv.1 ∈ keys

def LeafOk {α : Type} (d : Json) (sect key : Bytes) (value : Json → α → Prop) : Prop :=
  ∀ v, d.leaf? sect key = some v → ∃ x, value v x

structure Documented (d : Json) : Prop where
  root : d.isObject = true ∧ ∀ kv ∈ d.items, kv.1 ∈ rootKeys
  server : SectionOk d (lit "server") serverKeys
  httpPort : LeafOk d (lit "server") (lit "http_port") PortValue
  httpsPort : LeafOk d (lit "server") (lit "https_port") PortValue
  runMode : LeafOk d (lit "server") (lit "run_mode") (WordValue runModeWords)
  allowHttpsOverHttpPort : LeafOk d (lit "server") (lit "allow_https_over_http_port") BoolValue
  tls : SectionOk d (lit "tls") tlsKeys
  certificate : LeafOk d (lit "tls") (lit "certificate") StringValue
  privateKey : LeafOk d (lit "tls") (lit "private_key") StringValue
  upstream : SectionOk d (lit "upstream") upstreamKeys
  host : LeafOk d (lit "upstream") (lit "host") NonEmptyValue
  port : LeafOk d (lit "upstream") (lit "port") PortValue
  ignoreCertificateVerification :
    LeafOk d (lit "upstream") (lit "ignore_certificate_verification") BoolValue
  logging : SectionOk d (lit "logging") loggingKeys
  output : LeafOk d (lit "logging") (lit "output") (WordValue logOutputWords)
  level : LeafOk d (lit "logging") (lit "level") (WordValue logLevelWords)
  throttling : SectionOk d (lit "throttling") throttlingKeys
  enabled : LeafOk d (lit "throttling") (lit "enabled") BoolValue
  requestsPerSecond : LeafOk d (lit "throttling") (lit "requests_per_second") NumberValue
  burstSize : LeafOk d (lit "throttling") (lit "burst_size") NumberValue

def Setting {α : Type} (value : Json → α → Prop) (leaf : Option Json) (old new : α) : Prop :=
  match leaf with
  | none => new = old
  | some v => value v new

structure Loaded (d : Json) (c c' : Config) : Prop where
  configPath : c'.configPath = c.configPath
  httpPort : Setting PortValue (d.leaf? (lit "server") (lit "http_port")) c.server.httpPort c'.server.httpPort
  httpsPort : Setting PortValue (d.leaf? (lit "server") (lit "https_port"))
    c.server.httpsPort c'.server.httpsPort
  runMode : Setting (WordValue runModeWords) (d.leaf? (lit "server") (lit "run_mode"))
    c.server.runMode c'.server.runMode
  allowHttpsOverHttpPort : Setting BoolValue (d.leaf? (lit "server") (lit "allow_https_over_http_port"))
    c.server.allowHttpsOverHttpPort c'.server.allowHttpsOverHttpPort
  workerThreads : c'.server.workerThreads = c.server.workerThreads
  certificate : Setting StringValue (d.leaf? (lit "tls") (lit "certificate"))
    c.tls.certificate c'.tls.certificate
  privateKey : Setting StringValue (d.leaf? (lit "tls") (lit "private_key"))
    c.tls.privateKey c'.tls.privateKey
  host : Setting NonEmptyValue (d.leaf? (lit "upstream") (lit "host")) c.upstream.host c'.upstream.host
  port : Setting PortValue (d.leaf? (lit "upstream") (lit "port")) c.upstream.port c'.upstream.port
  ignoreCertificateVerification :
    Setting BoolValue (d.leaf? (lit "upstream") (lit "ignore_certificate_verification"))
      c.upstream.ignoreCertificateVerification c'.upstream.ignoreCertificateVerification
  output : Setting (WordValue logOutputWords) (d.leaf? (lit "logging") (lit "output"))
    c.logging.output c'.logging.output
  level : Setting (WordValue logLevelWords) (d.leaf? (lit "logging") (lit "level"))
    c.logging.level c'.logging.level
  enabled : Setting BoolValue (d.leaf? (lit "throttling") (lit "enabled"))
    c.throttling.enabled c'.throttling.enabled
  requestsPerSecond : Setting NumberValue (d.leaf? (lit "throttling") (lit "requests_per_second"))
    c.throttling.requestsPerSecond c'.throttling.requestsPerSecond
  burstSize : Setting NumberValue (d.leaf? (lit "throttling") (lit "burst_size"))
    c.throttling.burstSize c'.throttling.burstSize

/-! ### Leaves and sections -/

theorem obtainObject_ok {v : Json} {name : Bytes} : obtainObject v name = .ok () ↔ v.isObject = true := by
  unfold obtainObject; cases v.isObject <;> simp

theorem validateKeys_ok {v : Json} {allowed : List Bytes} {name : Bytes} :
    validateKeys v allowed name = .ok () ↔ ∀ kv ∈ v.items, kv.1 ∈ allowed := by
  unfold validateKeys
  induction v.items with
  | nil => simp [pure, Except.pure]
  | cons kv items ih =>
    rw [List.forM_cons, List.forall_mem_cons]
    by_cases hk : kv.1 ∈ allowed
    · simpa [hk, bind, Except.bind] using ih
    · simp [hk, bind, Except.bind]

theorem mergeLeaf_accepts {α : Type} {read : Json → Except Bytes α} {value : Json → α → Prop}
    (hread : Decides read value) (it : Json) (key : Bytes) (old : Config → α) (assign : α → Config → Config)
    (hassign : ∀ c, assign (old c) c = c) :
    Accepts (mergeLeaf it key read assign) (∀ v, it.find? key = some v → ∃ x, value v x)
      (fun c c' => ∃ x, Setting value (it.find? key) (old c) x ∧ c' = assign x c) := by
  unfold mergeLeaf
  cases it.find? key with
  | none => exact Accepts.pure.mono (by simp) fun c c' h => ⟨old c, rfl, h.trans (hassign c).symm⟩
  | some v => exact (Accepts.store hread v assign).mono (by simp) fun c c' h => h

theorem mergeSection_accepts {root : Json} {key : Bytes} {allowed : List Bytes}
    {leaves : Json → EStateM Bytes Config Unit} {ok : Json → Prop} {post : Json → Config → Config → Prop}
    (h : ∀ it, Accepts (leaves it) (ok it) (post it)) :
    Accepts (mergeSection root key allowed leaves)
      (SectionOk root key allowed ∧ ∀ it, root.find? key = some it → ok it)
      (fun c c' => match root.find? key with
        | none => c' = c
        | some it => post it c c') := by
  unfold mergeSection SectionOk
  cases root.find? key with
  | none => exact Accepts.pure.mono (by simp) fun _ _ h => h
  | some it =>
    refine ((Accepts.check obtainObject_ok).seq ((Accepts.check validateKeys_ok).seq (h it))).mono
      (by simp [and_assoc]) ?_
    rintro c c' ⟨_, rfl, _, rfl, hp⟩
    exact hp

theorem leafOk_iff {α : Type} {d : Json} {sect key : Bytes} {value : Json → α → Prop} :
    (∀ it, d.find? sect = some it → ∀ v, it.find? key = some v → ∃ x, value v x) ↔
      LeafOk d sect key value := by
  unfold LeafOk Json.leaf?
  cases d.find? sect <;> simp

theorem mergeServer_accepts (d : Json) :
    Accepts (mergeServer d)
      (SectionOk d (lit "server") serverKeys ∧ LeafOk d (lit "server") (lit "http_port") PortValue ∧
        LeafOk d (lit "server") (lit "https_port") PortValue ∧
        LeafOk d (lit "server") (lit "run_mode") (WordValue runModeWords) ∧
        LeafOk d (lit "server") (lit "allow_https_over_http_port") BoolValue)
      (fun c c' => c' = { c with server := { c'.server with workerThreads := c.server.workerThreads } } ∧
        Setting PortValue (d.leaf? (lit "server") (lit "http_port")) c.server.httpPort c'.server.httpPort ∧
        Setting PortValue (d.leaf? (lit "server") (lit "https_port")) c.server.httpsPort c'.server.httpsPort ∧
        Setting (WordValue runModeWords) (d.leaf? (lit "server") (lit "run_mode"))
          c.server.runMode c'.server.runMode ∧
        Setting BoolValue (d.leaf? (lit "server") (lit "allow_https_over_http_port"))
          c.server.allowHttpsOverHttpPort c'.server.allowHttpsOverHttpPort) := by
  refine (mergeSection_accepts fun it =>
    (mergeLeaf_accepts (readPort_decides _) it _ (·.server.httpPort) _ fun _ => rfl).seq <|
    (mergeLeaf_accepts (readPort_decides _) it _ (·.server.httpsPort) _ fun _ => rfl).seq <|
    (mergeLeaf_accepts (readWord_decides _ _ (by decide)) it _ (·.server.runMode) _ fun _ => rfl).seq
    (mergeLeaf_accepts (readBool_decides _) it _ (·.server.allowHttpsOverHttpPort) _ fun _ => rfl)).mono ?_ ?_
  · simp only [← leafOk_iff, forall_and]
  · intro c c'
    unfold Json.leaf?
    cases d.find? (lit "server") with
    | none => rintro rfl; exact ⟨rfl, rfl, rfl, rfl, rfl⟩
    | some it =>
      rintro ⟨_, ⟨p, hp, rfl⟩, _, ⟨q, hq, rfl⟩, _, ⟨m, hm, rfl⟩, a, ha, rfl⟩
      exact ⟨rfl, hp, hq, hm, ha⟩

theorem mergeTLS_accepts (d : Json) :
    Accepts (mergeTLS d)
      (SectionOk d (lit "tls") tlsKeys ∧ LeafOk d (lit "tls") (lit "certificate") StringValue ∧
        LeafOk d (lit "tls") (lit "private_key") StringValue)
      (fun c c' => c' = { c with tls := c'.tls } ∧
        Setting StringValue (d.leaf? (lit "tls") (lit "certificate")) c.tls.certificate c'.tls.certificate ∧
        Setting StringValue (d.leaf? (lit "tls") (lit "private_key")) c.tls.privateKey c'.tls.privateKey) := by
  refine (mergeSection_accepts fun it =>
    (mergeLeaf_accepts (readString_decides _) it _ (·.tls.certificate) _ fun _ => rfl).seq
    (mergeLeaf_accepts (readString_decides _) it _ (·.tls.privateKey) _ fun _ => rfl)).mono ?_ ?_
  · simp only [← leafOk_iff, forall_and]
  · intro c c'
    unfold Json.leaf?
    cases d.find? (lit "tls") with
    | none => rintro rfl; exact ⟨rfl, rfl, rfl⟩
    | some it =>
      rintro ⟨_, ⟨p, hp, rfl⟩, q, hq, rfl⟩
      exact ⟨rfl, hp, hq⟩

theorem mergeUpstream_accepts (d : Json) :
    Accepts (mergeUpstream d)
      (SectionOk d (lit "upstream") upstreamKeys ∧ LeafOk d (lit "upstream") (lit "host") NonEmptyValue ∧
        LeafOk d (lit "upstream") (lit "port") PortValue ∧
        LeafOk d (lit "upstream") (lit "ignore_certificate_verification") BoolValue)
      (fun c c' => c' = { c with upstream := c'.upstream } ∧
        Setting NonEmptyValue (d.leaf? (lit "upstream") (lit "host")) c.upstream.host c'.upstream.host ∧
        Setting PortValue (d.leaf? (lit "upstream") (lit "port")) c.upstream.port c'.upstream.port ∧
        Setting BoolValue (d.leaf? (lit "upstream") (lit "ignore_certificate_verification"))
          c.upstream.ignoreCertificateVerification c'.upstream.ignoreCertificateVerification) := by
  refine (mergeSection_accepts fun it =>
    (mergeLeaf_accepts (readString_nonEmpty_decides _) it _ (·.upstream.host) _ fun _ => rfl).seq <|
    (mergeLeaf_accepts (readPort_decides _) it _ (·.upstream.port) _ fun _ => rfl).seq
    (mergeLeaf_accepts (readBool_decides _) it _ (·.upstream.ignoreCertificateVerification) _
      fun _ => rfl)).mono ?_ ?_
  · simp only [← leafOk_iff, forall_and]
  · intro c c'
    unfold Json.leaf?
    cases d.find? (lit "upstream") with
    | none => rintro rfl; exact ⟨rfl, rfl, rfl, rfl⟩
    | some it =>
      rintro ⟨_, ⟨h, hh, rfl⟩, _, ⟨p, hp, rfl⟩, i, hi, rfl⟩
      exact ⟨rfl, hh, hp, hi⟩

theorem mergeLogging_accepts (d : Json) :
    Accepts (mergeLogging d)
      (SectionOk d (lit "logging") loggingKeys ∧
        LeafOk d (lit "logging") (lit "output") (WordValue logOutputWords) ∧
        LeafOk d (lit "logging") (lit "level") (WordValue logLevelWords))
      (fun c c' => c' = { c with logging := c'.logging } ∧
        Setting (WordValue logOutputWords) (d.leaf? (lit "logging") (lit "output"))
          c.logging.output c'.logging.output ∧
        Setting (WordValue logLevelWords) (d.leaf? (lit "logging") (lit "level"))
          c.logging.level c'.logging.level) := by
  refine (mergeSection_accepts fun it =>
    (mergeLeaf_accepts (readWord_decides _ _ (by decide)) it _ (·.logging.output) _ fun _ => rfl).seq
    (mergeLeaf_accepts (readWord_decides _ _ (by decide)) it _ (·.logging.level) _ fun _ => rfl)).mono ?_ ?_
  · simp only [← leafOk_iff, forall_and]
  · intro c c'
    unfold Json.leaf?
    cases d.find? (lit "logging") with
    | none => rintro rfl; exact ⟨rfl, rfl, rfl⟩
    | some it =>
      rintro ⟨_, ⟨p, hp, rfl⟩, q, hq, rfl⟩
      exact ⟨rfl, hp, hq⟩

theorem mergeThrottling_accepts (d : Json) :
    Accepts (mergeThrottling d)
      (SectionOk d (lit "throttling") throttlingKeys ∧
        LeafOk d (lit "throttling") (lit "enabled") BoolValue ∧
        LeafOk d (lit "throttling") (lit "requests_per_second") NumberValue ∧
        LeafOk d (lit "throttling") (lit "burst_size") NumberValue)
      (fun c c' => c' = { c with throttling := c'.throttling } ∧
        Setting BoolValue (d.leaf? (lit "throttling") (lit "enabled"))
          c.throttling.enabled c'.throttling.enabled ∧
        Setting NumberValue (d.leaf? (lit "throttling") (lit "requests_per_second"))
          c.throttling.requestsPerSecond c'.throttling.requestsPerSecond ∧
        Setting NumberValue (d.leaf? (lit "throttling") (lit "burst_size"))
          c.throttling.burstSize c'.throttling.burstSize) := by
  refine (mergeSection_accepts fun it =>
    (mergeLeaf_accepts (readBool_decides _) it _ (·.throttling.enabled) _ fun _ => rfl).seq <|
    (mergeLeaf_accepts (readUInt32_decides _) it _ (·.throttling.requestsPerSecond) _ fun _ => rfl).seq
    (mergeLeaf_accepts (readUInt32_decides _) it _ (·.throttling.burstSize) _ fun _ => rfl)).mono ?_ ?_
  · simp only [← leafOk_iff, forall_and]
  · intro c c'
    unfold Json.leaf?
    cases d.find? (lit "throttling") with
    | none => rintro rfl; exact ⟨rfl, rfl, rfl, rfl⟩
    | some it =>
      rintro ⟨_, ⟨e, he, rfl⟩, _, ⟨r, hr, rfl⟩, b, hb, rfl⟩
      exact ⟨rfl, he, hr, hb⟩

/-! ### The document -/

theorem mergeJsonConfig_accepts (d : Json) : Accepts (mergeJsonConfig d) (Documented d) (Loaded d) := by
  refine ((Accepts.check obtainObject_ok).seq <| (Accepts.check validateKeys_ok).seq <|
    (mergeServer_accepts d).seq <| (mergeTLS_accepts d).seq <| (mergeUpstream_accepts d).seq <|
    (mergeLogging_accepts d).seq (mergeThrottling_accepts d)).mono ?_ ?_
  · constructor
    · rintro ⟨ho, hk, ⟨s, s₁, s₂, s₃, s₄⟩, ⟨t, t₁, t₂⟩, ⟨u, u₁, u₂, u₃⟩, ⟨l, l₁, l₂⟩, r, r₁, r₂, r₃⟩
      exact ⟨⟨ho, hk⟩, s, s₁, s₂, s₃, s₄, t, t₁, t₂, u, u₁, u₂, u₃, l, l₁, l₂, r, r₁, r₂, r₃⟩
    · rintro ⟨⟨ho, hk⟩, s, s₁, s₂, s₃, s₄, t, t₁, t₂, u, u₁, u₂, u₃, l, l₁, l₂, r, r₁, r₂, r₃⟩
      exact ⟨ho, hk, ⟨s, s₁, s₂, s₃, s₄⟩, ⟨t, t₁, t₂⟩, ⟨u, u₁, u₂, u₃⟩, ⟨l, l₁, l₂⟩, r, r₁, r₂, r₃⟩
  · rintro c c' ⟨_, rfl, _, rfl, c₁, ⟨e₁, s₁, s₂, s₃, s₄⟩, c₂, ⟨e₂, t₁, t₂⟩, c₃, ⟨e₃, u₁, u₂, u₃⟩,
      c₄, ⟨e₄, l₁, l₂⟩, e₅, r₁, r₂, r₃⟩
    -- no section touches the settings of another one
    rw [e₁] at e₂
    rw [e₂] at e₃
    rw [e₃] at e₄
    rw [e₄] at e₅
    rw [e₁] at t₁ t₂
    rw [e₂] at u₁ u₂ u₃
    rw [e₃] at l₁ l₂
    rw [e₄] at r₁ r₂ r₃
    rw [e₅]
    exact ⟨rfl, s₁, s₂, s₃, s₄, rfl, t₁, t₂, u₁, u₂, u₃, l₁, l₂, r₁, r₂, r₃⟩

section

variable {readValue : Bytes → Except Bytes (Json × Bytes)} {loader : Loader} {d : Json}

theorem loadJsonConfig_of_documented (hd : loadFromStream readValue loader = .ok d) (ho : Documented d)
    (c : Config) : ∃ c', loadJsonConfig readValue loader c = .ok () c' ∧ Loaded d c c' := by
  obtain ⟨c', hm, hl⟩ := (mergeJsonConfig_accepts d c).1 ho
  refine ⟨c', ?_, hl⟩
  unfold loadJsonConfig
  simp only [hd, hm]

theorem loadJsonConfig_of_not_documented (hd : loadFromStream readValue loader = .ok d) (ho : ¬ Documented d)
    (c : Config) : ∃ what, loadJsonConfig readValue loader c = .error what c := by
  obtain ⟨e, c', hm⟩ := (mergeJsonConfig_accepts d c).2 ho
  refine ⟨loadFailure loader e, ?_⟩
  unfold loadJsonConfig
  simp only [hd, hm]

end

/-- Loading accepts exactly the documented documents, with the documented result, and leaves the settings
as they were when it throws. -/
theorem loadJsonConfig_schema (readValue : Bytes → Except Bytes (Json × Bytes)) (loader : Loader) (d : Json)
    (hd : loadFromStream readValue loader = .ok d) (c : Config) :
    (Documented d → ∃ c', loadJsonConfig readValue loader c = .ok () c' ∧ Loaded d c c') ∧
    (¬ Documented d → ∃ what, loadJsonConfig readValue loader c = .error what c) :=
  ⟨fun ho => loadJsonConfig_of_documented hd ho c, fun ho => loadJsonConfig_of_not_documented hd ho c⟩

/-- A document with a valid port before a wrong run mode: nothing is changed. -/
theorem loadJsonConfig_schema_atomic :
    ∃ what, loadJsonConfig
      (fun _ => .ok (.object [(lit "server", .object
        [(lit "http_port", .numberUnsigned 9080), (lit "run_mode", .string (lit "once"))])], []))
      (LoadFromString (lit "\x7b\"server\": \x7b\"http_port\": 9080, \"run_mode\": \"once\"\x7d\x7d"))
      {} = .error what {} := by
  refine (loadJsonConfig_schema _ _ _ rfl {}).2 fun h => ?_
  obtain ⟨x, w, hw, hx⟩ := h.runMode (.string (lit "once")) rfl
  cases hw
  revert hx
  cases x <;> decide

end MarketBridge
