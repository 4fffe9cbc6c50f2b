import MarketBridge.JsonText

/-!
# Texts and numbers that the configuration accepts

Loading reads one value and does not look at what follows it, so a text is accepted as a whole only where
nothing follows and no member was dropped on the way to `validate_keys`. Integer settings take the integers
in range, however they are stored.
-/

namespace MarketBridge

open Accept

/-! ### The members that `validate_keys` sees -/

def sections : List (Bytes × List Bytes) :=
  [(lit "server", serverKeys), (lit "tls", tlsKeys), (lit "upstream", upstreamKeys),
   (lit "logging", loggingKeys), (lit "throttling", throttlingKeys)]

/-- The members given to `validate_keys`: those of the root and of each section. -/
def Checked (d : Json) : List Bytes → Prop
  | [k] => k ∈ d.items.map Prod.fst
  | [k, k'] => k ∈ rootKeys ∧ ∃ it, d.find? k = some it ∧ k' ∈ it.items.map Prod.fst
  | _ => False

section

variable {d : Json} {sect key : Bytes}

theorem LeafOk.isScalar {α : Type} {value : Json → α → Prop} (hv : ∀ v x, value v x → v.isScalar = true)
    (h : LeafOk d sect key value) : ∀ v, d.leaf? sect key = some v → v.isScalar = true := by
  intro v hl
  obtain ⟨x, hx⟩ := h v hl
  exact hv v x hx

theorem isScalar_of_int? {v : Json} {n : Int} (h : v.int? = some n) : v.isScalar = true := by
  cases v with
  | array vs => cases h
  | object ms => cases h
  | _ => rfl

theorem portValue_isScalar (v : Json) (p : UInt16) (h : PortValue v p) : v.isScalar = true :=
  isScalar_of_int? h.1

theorem numberValue_isScalar (v : Json) (n : UInt32) (h : NumberValue v n) : v.isScalar = true :=
  isScalar_of_int? h

theorem boolValue_isScalar (v : Json) (b : Bool) (h : BoolValue v b) : v.isScalar = true := by
  unfold BoolValue at h
  rw [h]; rfl

theorem stringValue_isScalar (v : Json) (s : Bytes) (h : StringValue v s) : v.isScalar = true := by
  unfold StringValue at h
  rw [h]; rfl

theorem nonEmptyValue_isScalar (v : Json) (s : Bytes) (h : NonEmptyValue v s) : v.isScalar = true :=
  stringValue_isScalar v s h.1

theorem wordValue_isScalar {α : Type} {words : List (Bytes × α)} (v : Json) (x : α) (h : WordValue words v x) :
    v.isScalar = true := by
  obtain ⟨w, hw, -⟩ := h
  exact stringValue_isScalar v w hw

/-- Every section of a documented document is an object of known keys with scalar values. -/
theorem Documented.sections_ok (h : Documented d) : ∀ sk ∈ sections, SectionOk d sk.1 sk.2 ∧
    ∀ key ∈ sk.2, ∀ v, d.leaf? sk.1 key = some v → v.isScalar = true := by
  simp only [sections, serverKeys, tlsKeys, upstreamKeys, loggingKeys, throttlingKeys, List.forall_mem_cons,
    List.not_mem_nil, false_implies, implies_true, and_true]
  refine ⟨⟨h.server, ?_, ?_, ?_, ?_⟩, ⟨h.tls, ?_, ?_⟩, ⟨h.upstream, ?_, ?_, ?_⟩, ⟨h.logging, ?_, ?_⟩,
    ⟨h.throttling, ?_, ?_, ?_⟩⟩
  · exact h.httpPort.isScalar portValue_isScalar
  · exact h.httpsPort.isScalar portValue_isScalar
  · exact h.runMode.isScalar wordValue_isScalar
  · exact h.allowHttpsOverHttpPort.isScalar boolValue_isScalar
  · exact h.certificate.isScalar stringValue_isScalar
  · exact h.privateKey.isScalar stringValue_isScalar
  · exact h.host.isScalar nonEmptyValue_isScalar
  · exact h.port.isScalar portValue_isScalar
  · exact h.ignoreCertificateVerification.isScalar boolValue_isScalar
  · exact h.output.isScalar wordValue_isScalar
  · exact h.level.isScalar wordValue_isScalar
  · exact h.enabled.isScalar boolValue_isScalar
  · exact h.requestsPerSecond.isScalar numberValue_isScalar
  · exact h.burstSize.isScalar numberValue_isScalar

theorem exists_keys_of_mem_rootKeys (h : sect ∈ rootKeys) : ∃ keys, (sect, keys) ∈ sections := by
  have hmap : rootKeys = sections.map Prod.fst := rfl
  rw [hmap, List.mem_map] at h
  obtain ⟨⟨_, keys⟩, hm, rfl⟩ := h
  exact ⟨keys, hm⟩

/-- A documented document has no members but those that `validate_keys` saw. -/
theorem Documented.memberAt_iff {w : Json} (h : Documented d) (hs : Stores w d) (p : List Bytes) :
    MemberAt d p ↔ Checked d p := by
  obtain ⟨hobj, hroot⟩ := h.root
  cases d with
  | object ms =>
    have hfind : ∀ k it, (Json.object ms).find? k = some it ↔ (k, it) ∈ ms := fun k it =>
      find?_eq_some_iff hs.nodup
    constructor
    · intro hp
      cases hp with
      | here hm => exact List.mem_map_of_mem (f := Prod.fst) hm
      | @inside _ k it p hm hp =>
        obtain ⟨keys, hkeys⟩ := exists_keys_of_mem_rootKeys (hroot _ hm)
        obtain ⟨hsect, hleaf⟩ := h.sections_ok _ hkeys
        obtain ⟨hit, hknown⟩ := hsect it ((hfind k it).2 hm)
        obtain ⟨w', hs'⟩ := hs.member hm
        cases it with
        | object ms' =>
          cases hp with
          | @here _ k' v hm' => exact ⟨hroot _ hm, _, (hfind k _).2 hm, List.mem_map_of_mem (f := Prod.fst) hm'⟩
          | @inside _ k' v p hm' hp =>
            have hv : (Json.object ms).leaf? k k' = some v := by
              rw [Json.leaf?, (hfind k _).2 hm]
              exact (find?_eq_some_iff hs'.nodup).2 hm'
            exact absurd hp (not_memberAt_of_isScalar (hleaf k' (hknown _ hm') v hv) p)
        | _ => cases hit
    · intro hp
      match p, hp with
      | [k], hp =>
        obtain ⟨⟨_, it⟩, hm, rfl⟩ := List.mem_map.1 hp
        exact .here hm
      | [k, k'], ⟨_, it, hit, hk'⟩ =>
        have hm := (hfind k it).1 hit
        obtain ⟨⟨_, v⟩, hm', rfl⟩ := List.mem_map.1 hk'
        cases it with
        | object ms' => exact .inside hm (.here hm')
        | _ => cases hm'
  | _ => cases hobj

end

/-! ### The whole text -/

theorem not_startsWith_bom {before t rest : Bytes} (hb : Blank before) (ht : t.head? = some 123) :
    ¬ bom <+: before ++ t ++ rest := by
  rintro ⟨u, hu⟩
  have hhead : (before ++ t ++ rest).head? = some 0xEF := by rw [← hu]; rfl
  cases before with
  | nil =>
    rw [List.nil_append, List.head?_append, ht] at hhead
    obtain h : (123 : UInt8) = 0xEF := Option.some.inj hhead
    exact absurd h (by decide)
  | cons b before =>
    obtain rfl : b = 0xEF := by simpa using hhead
    exact absurd (hb _ List.mem_cons_self) (by decide)

namespace JsonReader

variable {r : JsonReader} {loader : Loader} {s rest : Bytes} {w : Json}

/-- `s` is one object between whitespace, and `validate_keys` saw all its members in the document `d`. A
member is told by the path of its keys, which is what `validate_keys` looks at: of two members with one path
one is stored, and it stands for both. -/
def Whole (r : JsonReader) (s : Bytes) (d : Json) : Prop :=
  ∃ before t after ms, s = before ++ t ++ after ∧ Blank before ∧ Blank after ∧ r.isText t (.object ms) ∧
    ∀ p, MemberAt (.object ms) p → Checked d p

/-- The text `s` is accepted as a whole only, and a failure changes nothing. -/
def AcceptsWhole (r : JsonReader) (loader : Loader) (s : Bytes) : Prop :=
  ∀ c, (∀ c', loadJsonConfig r.readValue loader c = .ok () c' →
      ∃ d, loadFromStream r.readValue loader = .ok d ∧ r.Whole s d) ∧
    ∀ what c', loadJsonConfig r.readValue loader c = .error what c' → c' = c

theorem loadFromStream_ok (ho : loader.open? = .ok s) {d : Json} :
    loadFromStream r.readValue loader = .ok d ↔ ∃ w rest, r.readText s = .ok (w, rest) ∧ r.stored w = d := by
  unfold loadFromStream readValue
  rw [ho]
  dsimp only
  cases r.readText s with
  | error what => simp
  | ok p =>
    obtain ⟨w, rest⟩ := p
    simp

theorem exists_of_load (ho : loader.open? = .ok s) {c c' : Config}
    (h : loadJsonConfig r.readValue loader c = .ok () c') :
    ∃ w rest, r.readText s = .ok (w, rest) ∧ loadFromStream r.readValue loader = .ok (r.stored w) ∧
      Documented (r.stored w) := by
  cases hd : loadFromStream r.readValue loader with
  | error what =>
    unfold loadJsonConfig at h
    rw [hd] at h
    cases h
  | ok d =>
    obtain ⟨w, rest, hread, rfl⟩ := (loadFromStream_ok ho).1 hd
    refine ⟨w, rest, hread, rfl, ?_⟩
    by_contra hdoc
    obtain ⟨what, he⟩ := loadJsonConfig_of_not_documented hd hdoc c
    rw [he] at h
    cases h

theorem load_error {readValue : Bytes → Except Bytes (Json × Bytes)} {what : Bytes} {c c' : Config}
    (h : loadJsonConfig readValue loader c = .error what c') : c' = c := by
  unfold loadJsonConfig at h
  split at h
  · cases h; rfl
  · split at h
    · cases h
    · cases h; rfl

theorem NonStrict.whole (hr : r.NonStrict) (hread : r.readText s = .ok (w, rest))
    (hdoc : Documented (r.stored w)) (hbom : ¬ bom <+: s) (hrest : Blank rest)
    (hkept : ∀ p, MemberAt w p → MemberAt (r.stored w) p) : r.Whole s (r.stored w) := by
  obtain ⟨before, t, hb, ht, hs⟩ := hr.reads s w rest hread
  have hstores := hr.stores t w ht
  have hobj : w.isObject = true := by
    rw [hstores.isObject]; exact hdoc.root.1
  rcases hs with rfl | rfl
  · cases w with
    | object ms =>
      refine ⟨before, t, rest, ms, rfl, hb, hrest, ht, fun p hp => ?_⟩
      exact (hdoc.memberAt_iff hstores p).1 (hkept p hp)
    | _ => cases hobj
  · exact absurd ⟨before ++ t ++ rest, by simp⟩ hbom

theorem NonStrict.of_whole (hr : r.NonStrict) (hread : r.readText s = .ok (w, rest))
    (hdoc : Documented (r.stored w)) (h : r.Whole s (r.stored w)) :
    ¬ bom <+: s ∧ Blank rest ∧ ∀ p, MemberAt w p → MemberAt (r.stored w) p := by
  obtain ⟨before, t, after, ms, rfl, hb, ha, ht, hchecked⟩ := h
  rw [hr.object before t ms after hb ht] at hread
  cases hread
  refine ⟨not_startsWith_bom hb (hr.brace t ms ht), ha, fun p hp => ?_⟩
  exact (hdoc.memberAt_iff (hr.stores t _ ht) p).2 (hchecked p hp)

theorem NonStrict.kept (hr : r.NonStrict) (hread : r.readText s = .ok (w, rest)) (hd : w.DistinctNames)
    (p : List Bytes) (hp : MemberAt w p) : MemberAt (r.stored w) p := by
  obtain ⟨before, t, -, ht, -⟩ := hr.reads s w rest hread
  exact (hr.stores t w ht).memberAt hd hp

theorem AcceptsWhole.whole (h : r.AcceptsWhole loader s) (ho : loader.open? = .ok s)
    (hread : r.readText s = .ok (w, rest)) (hdoc : Documented (r.stored w)) : r.Whole s (r.stored w) := by
  have hd : loadFromStream r.readValue loader = .ok (r.stored w) :=
    (loadFromStream_ok ho).2 ⟨w, rest, hread, rfl⟩
  obtain ⟨c', hload, -⟩ := loadJsonConfig_of_documented hd hdoc {}
  obtain ⟨d, hd', hw⟩ := (h {}).1 c' hload
  rw [hd] at hd'
  cases hd'
  exact hw

end JsonReader

/-- A text is accepted as a whole exactly when, if its first value passes the checks, only whitespace
follows that value and no path of its members was dropped, as none is without repeated names. A repeated
member that is dropped counts as checked as long as its path is still stored. -/
theorem acceptsWhole_iff (r : JsonReader) (hr : r.NonStrict) (loader : Loader) (s : Bytes)
    (ho : loader.open? = .ok s) :
    (r.AcceptsWhole loader s ↔ ∀ w rest, r.readText s = .ok (w, rest) → Documented (r.stored w) →
      ¬ bom <+: s ∧ Blank rest ∧ ∀ p, MemberAt w p → MemberAt (r.stored w) p) ∧
    ∀ w rest, r.readText s = .ok (w, rest) → w.DistinctNames →
      ∀ p, MemberAt w p → MemberAt (r.stored w) p := by
  refine ⟨⟨fun h w rest hread hdoc => ?_, fun H c => ?_⟩, fun w rest hread hd => hr.kept hread hd⟩
  · exact hr.of_whole hread hdoc (h.whole ho hread hdoc)
  · refine ⟨fun c' hload => ?_, fun what c' herr => JsonReader.load_error herr⟩
    obtain ⟨w, rest, hread, hd, hdoc⟩ := JsonReader.exists_of_load ho hload
    obtain ⟨hbom, hrest, hkept⟩ := H w rest hread hdoc
    exact ⟨r.stored w, hd, hr.whole hread hdoc hbom hrest hkept⟩

/-- A reader of one text only. -/
def literalReader (text : Bytes) (value : Json) : JsonReader where
  isText t w := t = text ∧ w = value
  readText s :=
    let rest := (if bom <+: s then s.drop bom.length else s).dropWhile jsonSpace
    if text <+: rest then .ok (value, rest.drop text.length) else .error (lit "parse error")
  stored w := w

theorem literalReader_nonStrict {text : Bytes} {value : Json} (ht : text.head? = some 123)
    (hs : Stores value value) : (literalReader text value).NonStrict where
  reads := by
    intro s w rest h
    have hsplit (u : Bytes) (hp : text <+: u.dropWhile jsonSpace) :
        u = u.takeWhile jsonSpace ++ text ++ (u.dropWhile jsonSpace).drop text.length := by
      obtain ⟨v, hv⟩ := hp
      conv_lhs => rw [← List.takeWhile_append_dropWhile (p := jsonSpace) (l := u), ← hv]
      simp [← hv]
    have hblank (u : Bytes) : Blank (u.takeWhile jsonSpace) := fun _ hb => List.mem_takeWhile_imp hb
    simp only [literalReader] at h
    generalize hu : (if bom <+: s then s.drop bom.length else s) = u at h
    have hs' : s = u ∨ s = bom ++ u := by
      rw [← hu]
      split
      · rename_i hbom
        obtain ⟨v, rfl⟩ := hbom
        right; rw [List.drop_left]
      · exact .inl rfl
    split at h
    · rename_i hp
      cases h
      refine ⟨u.takeWhile jsonSpace, text, hblank u, ⟨rfl, rfl⟩, ?_⟩
      rcases hs' with rfl | rfl
      · exact .inl (hsplit _ hp)
      · right
        conv_lhs => rw [hsplit u hp]
        simp
    · cases h
  object := by
    rintro before t ms rest hb ⟨rfl, hw⟩
    have hhead : (t ++ rest).dropWhile jsonSpace = t ++ rest := by
      cases t with
      | nil => cases ht
      | cons b t =>
        obtain rfl : b = 123 := Option.some.inj ht
        rfl
    have hdrop : (before ++ t ++ rest).dropWhile jsonSpace = t ++ rest := by
      rw [List.append_assoc, List.dropWhile_append_of_pos hb, hhead]
    simp only [literalReader, if_neg (not_startsWith_bom hb ht), hdrop, hw]
    rw [if_pos (List.prefix_append t rest), List.drop_left]
  brace := by
    rintro t ms ⟨rfl, -⟩
    exact ht
  stores := by
    rintro t w ⟨rfl, rfl⟩
    exact hs

theorem distinctNames_empty : (Json.object []).DistinctNames :=
  .object List.nodup_nil fun _ _ h => absurd h List.not_mem_nil

def emptyReader : JsonReader := literalReader (lit "\x7b\x7d") (.object [])

theorem emptyReader_nonStrict : emptyReader.NonStrict :=
  literalReader_nonStrict (by decide) distinctNames_empty.stores

theorem emptyReader_reads (rest : Bytes) :
    emptyReader.readText (lit "\x7b\x7d" ++ rest) = .ok (.object [], rest) :=
  emptyReader_nonStrict.object [] _ [] rest (List.forall_mem_nil _) ⟨rfl, rfl⟩

theorem documented_empty : Documented (.object []) := by
  have hsect (sect : Bytes) (keys : List Bytes) : SectionOk (.object []) sect keys := fun _ h => nomatch h
  have hleaf {α : Type} (sect key : Bytes) (value : Json → α → Prop) : LeafOk (.object []) sect key value :=
    fun _ h => nomatch h
  exact ⟨⟨rfl, fun _ h => absurd h List.not_mem_nil⟩, hsect _ _, hleaf _ _ _, hleaf _ _ _, hleaf _ _ _,
    hleaf _ _ _, hsect _ _, hleaf _ _ _, hleaf _ _ _, hsect _ _, hleaf _ _ _, hleaf _ _ _, hleaf _ _ _,
    hsect _ _, hleaf _ _ _, hleaf _ _ _, hsect _ _, hleaf _ _ _, hleaf _ _ _, hleaf _ _ _⟩

def hostText : Bytes := lit "\x7b\"upstream\": \x7b\"host\": \"api\"\x7d\x7d"

def hostValue : Json := .object [(lit "upstream", .object [(lit "host", .string (lit "api"))])]

theorem hostValue_distinctNames : hostValue.DistinctNames := by
  refine .object (List.nodup_singleton _) fun k v hm => ?_
  obtain ⟨-, rfl⟩ := Prod.mk.inj (List.mem_singleton.1 hm)
  refine .object (List.nodup_singleton _) fun k v hm => ?_
  obtain ⟨-, rfl⟩ := Prod.mk.inj (List.mem_singleton.1 hm)
  exact .scalar rfl

/-- A setting with a blank before the text and a line end after it. -/
theorem acceptsWhole_iff_host :
    (literalReader hostText hostValue).AcceptsWhole (LoadFromString ([SP] ++ hostText ++ [LF]))
      ([SP] ++ hostText ++ [LF]) ∧
    ∃ c', loadJsonConfig (literalReader hostText hostValue).readValue
      (LoadFromString ([SP] ++ hostText ++ [LF])) {} = .ok () c' ∧ c'.upstream.host = lit "api" := by
  have hr : (literalReader hostText hostValue).NonStrict :=
    literalReader_nonStrict rfl hostValue_distinctNames.stores
  have hread : (literalReader hostText hostValue).readText ([SP] ++ hostText ++ [LF]) = .ok (hostValue, [LF]) :=
    hr.object [SP] hostText _ [LF] (List.forall_mem_singleton.2 rfl) ⟨rfl, rfl⟩
  obtain ⟨hiff, hkept⟩ := acceptsWhole_iff (literalReader hostText hostValue) hr
    (LoadFromString ([SP] ++ hostText ++ [LF])) ([SP] ++ hostText ++ [LF]) rfl
  refine ⟨hiff.2 fun w rest hw _ => ⟨by decide, ?_, hkept w rest hw ?_⟩, ?_⟩
  · cases hread.symm.trans hw
    exact List.forall_mem_singleton.2 rfl
  · cases hread.symm.trans hw
    exact hostValue_distinctNames
  · have hd : loadFromStream (literalReader hostText hostValue).readValue
        (LoadFromString ([SP] ++ hostText ++ [LF])) = .ok hostValue :=
      (JsonReader.loadFromStream_ok rfl).2 ⟨_, _, hread, rfl⟩
    unfold loadJsonConfig
    rw [hd]
    exact ⟨_, rfl, rfl⟩

/-- An object closed too early, with a misspelt setting after it. -/
def strayText : Bytes := lit "\x7b\x7d, \"upstream\": \x7b\"prot\": 8443\x7d\x7d"

theorem strayText_accepted :
    emptyReader.NonStrict ∧
      (∃ c', loadJsonConfig emptyReader.readValue (LoadFromString strayText) {} = .ok () c') ∧
      ¬ emptyReader.AcceptsWhole (LoadFromString strayText) strayText := by
  have hread : emptyReader.readText strayText = .ok (.object [], strayText.drop 2) := emptyReader_reads _
  refine ⟨emptyReader_nonStrict, ?_, fun h => ?_⟩
  · have hd : loadFromStream emptyReader.readValue (LoadFromString strayText) = .ok (.object []) :=
      (JsonReader.loadFromStream_ok rfl).2 ⟨_, _, hread, rfl⟩
    obtain ⟨c', hload, -⟩ := loadJsonConfig_of_documented hd documented_empty {}
    exact ⟨c', hload⟩
  · have hw := h.whole rfl hread documented_empty
    have hblank := (emptyReader_nonStrict.of_whole hread documented_empty hw).2.1
    exact absurd (hblank 44 (by decide +kernel)) (by decide)

/-! ### Numbers -/

/-- The reader takes the integers from `lo` to `hi`, as they are, and throws at every other number. -/
def ReadsIntegers {α : Type} (read : Json → Except Bytes α) (toInt : α → Int) (lo hi : Int)
    (l : NumberLiteral) (v : Json) : Prop :=
  (∀ n, l.int? = some n →
    (lo ≤ n ∧ n ≤ hi → ∃ x, read v = .ok x ∧ toInt x = n) ∧
    (¬ (lo ≤ n ∧ n ≤ hi) → ∃ what, read v = .error what)) ∧
  (l.fraction ≠ none ∨ l.exponent ≠ none → ∃ what, read v = .error what)

theorem NumberLiteral.int?_eq_none {l : NumberLiteral} (h : l.fraction ≠ none ∨ l.exponent ≠ none) :
    l.int? = none := by
  unfold NumberLiteral.int?
  split
  · rename_i hf he
    rcases h with h | h
    · exact absurd hf h
    · exact absurd he h
  · rfl

theorem readsIntegers_of_decides {α : Type} {read : Json → Except Bytes α} {toInt : α → Int} {lo hi : Int}
    (hread : Decides read fun v x => v.int? = some (toInt x) ∧ lo ≤ toInt x) (hle : ∀ x, toInt x ≤ hi)
    (hsurj : ∀ n, lo ≤ n → n ≤ hi → ∃ x, toInt x = n) (hlo : -2 ^ 63 ≤ lo) (hhi : hi < 2 ^ 64)
    (float : NumberLiteral → UInt64) (l : NumberLiteral) :
    ReadsIntegers read toInt lo hi l (l.stored float) := by
  refine ⟨fun n hn => ⟨?_, fun hout => hread.exists_error ?_⟩, fun h => hread.exists_error ?_⟩
  · rintro ⟨h₁, h₂⟩
    obtain ⟨x, rfl⟩ := hsurj n h₁ h₂
    have hstored := (l.int?_stored float (toInt x)).2 ⟨hn, by omega, by omega⟩
    exact ⟨x, (hread _ x).2 ⟨hstored, h₁⟩, rfl⟩
  · rintro x ⟨hx, hlx⟩
    have hstored := ((l.int?_stored float _).1 hx).1
    rw [hn] at hstored
    obtain rfl := Option.some.inj hstored
    exact hout ⟨hlx, hle x⟩
  · rintro x ⟨hx, -⟩
    have hstored := ((l.int?_stored float _).1 hx).1
    rw [NumberLiteral.int?_eq_none h] at hstored
    cases hstored

/-- Ports and 32-bit numbers never wrap, whatever number is written. -/
theorem readers_integers (float : NumberLiteral → UInt64) (name : Bytes) (l : NumberLiteral) :
    ReadsIntegers (readPort name) (fun p => (p.toNat : Int)) 1 65535 l (l.stored float) ∧
    ReadsIntegers (readUInt32 name) (fun x => (x.toNat : Int)) 0 (2 ^ 32 - 1) l (l.stored float) := by
  constructor
  · refine readsIntegers_of_decides (fun v p => ?_) (fun p => ?_) (fun n h₁ h₂ => ?_) (by omega) (by omega)
      float l
    · rw [readPort_decides name v p]
      unfold PortValue
      exact and_congr_right fun _ => by omega
    · have := p.toNat_lt
      omega
    · have hp : (UInt16.ofNat n.toNat).toNat = n.toNat :=
        UInt16.toNat_ofNat_of_lt' (show n.toNat < 65536 by omega)
      exact ⟨UInt16.ofNat n.toNat, by rw [hp]; omega⟩
  · refine readsIntegers_of_decides (fun v x => ?_) (fun x => ?_) (fun n h₁ h₂ => ?_) (by omega) (by omega)
      float l
    · rw [readUInt32_decides name v x]
      unfold NumberValue
      exact (and_iff_left (by omega)).symm
    · have := x.toNat_lt
      omega
    · have hx : (UInt32.ofNat n.toNat).toNat = n.toNat :=
        UInt32.toNat_ofNat_of_lt' (show n.toNat < 4294967296 by omega)
      exact ⟨UInt32.ofNat n.toNat, by rw [hx]; omega⟩

end MarketBridge
