import MarketBridge.ResponseSpec
import MarketBridge.StartupTable

/-!
# What the table shows

All lines of the table have one width, unless a text holds a line end (`startup_table_rectangular`), and the table
tells apart any two configurations that differ in a setting it shows (`startup_table_shows`). The first line gives
the widths of the columns; with these the rows have one length and each cell is a field.
-/

namespace MarketBridge

open Columns

/-- The settings that the table shows, the others at their defaults. -/
def Config.shown (cfg : Config) : Config :=
  { cfg with
    configPath := []
    server := { cfg.server with workerThreads := 3 }
    throttling := if cfg.throttling.enabled then cfg.throttling else {} }

/-- What is relied on of `spdlog::level::to_string_view`: names that are told apart, without line ends and without
a blank at the end. -/
structure LevelNames (levelName : LogLevel → Bytes) : Prop where
  injective : Function.Injective levelName
  noLineEnd : ∀ level, LF ∉ levelName level
  trimmed : ∀ level, (levelName level).getLast? ≠ some SP

/-- `int` holds the length of every text. -/
abbrev Config.Short (cfg : Config) (levelName : LogLevel → Bytes) : Prop :=
  ∀ row ∈ startupRows levelName cfg, row.2.length < 2 ^ 31

/-- The paths do not end in a blank. -/
structure Config.Trimmed (cfg : Config) : Prop where
  certificate : cfg.tls.certificate.getLast? ≠ some SP
  privateKey : cfg.tls.privateKey.getLast? ≠ some SP

attribute [ext] Config Config.Server Config.TLS Config.Upstream Config.Logging Config.Throttling

variable {levelName : LogLevel → Bytes}

/-! ### The texts -/

theorem getLast_number (n : Nat) : (lit (toString n)).getLast? ≠ some SP := fun h =>
  digits_notMem (by decide) n (List.mem_of_getLast? h)

theorem number_inj {m n : Nat} (h : lit (toString m) = lit (toString n)) : m = n := by
  have hm := decimal_lit m
  rw [h, decimal_lit] at hm
  exact (Option.some.inj hm).symm

theorem number_ne_nil (n : Nat) : lit (toString n) ≠ [] := by
  intro h
  have hn := decimal_lit n
  rw [h] at hn
  cases hn

theorem getLast_endpoint (host : Bytes) (port : UInt16) : (endpoint host port).getLast? ≠ some SP := by
  rw [endpoint, List.getLast?_append_of_ne_nil _ (number_ne_nil _)]
  exact getLast_number _

/-- The last colon stands before the port. -/
theorem endpoint_inj {host host' : Bytes} {port port' : UInt16} (h : endpoint host port = endpoint host' port') :
    host = host' ∧ port = port' := by
  have hrev : ∀ (host : Bytes) (port : UInt16), (endpoint host port).reverse =
      (lit (toString port.toNat)).reverse ++ COLON :: host.reverse := by
    intro host port
    simp [endpoint, lit, COLON]
  have hport : ∀ (port : UInt16), ∀ b ∈ (lit (toString port.toNat)).reverse, (b != COLON) = true := by
    intro port b hb
    rw [bne_iff_ne]
    rintro rfl
    exact digits_notMem (by decide) _ (List.mem_reverse.1 hb)
  have he := congrArg List.reverse h
  rw [hrev, hrev] at he
  have hfront := congrArg (List.takeWhile (· != COLON)) he
  have hback := congrArg (List.dropWhile (· != COLON)) he
  rw [Words.takeWhile_append_cons (hport _) (by simp), Words.takeWhile_append_cons (hport _) (by simp),
    List.reverse_inj] at hfront
  rw [Words.dropWhile_append_cons (hport _) (by simp), Words.dropWhile_append_cons (hport _) (by simp),
    List.cons.injEq, List.reverse_inj] at hback
  exact ⟨hback.2, UInt16.toNat_inj.1 (number_inj hfront)⟩

theorem ServerRunningMode.toString_inj {m m' : ServerRunningMode} (h : m.toString = m'.toString) : m = m' := by
  revert h
  cases m <;> cases m' <;> decide +kernel

theorem LoggerType.toString_inj {t t' : LoggerType} (h : t.toString = t'.toString) : t = t' := by
  revert h
  cases t <;> cases t' <;> decide +kernel

theorem boolToString_inj {b b' : Bool} (h : boolToString b = boolToString b') : b = b' := by
  revert h
  cases b <;> cases b' <;> decide +kernel

/-! ### The rows -/

theorem take_startupRows (cfg : Config) : (startupRows levelName cfg).take 12 =
    [(lit "Version", appVersion),
     (lit "HTTP listener", endpoint (lit "localhost") cfg.server.httpPort),
     (lit "HTTPS listener", endpoint (lit "localhost") cfg.server.httpsPort),
     (lit "Upstream", endpoint cfg.upstream.host cfg.upstream.port),
     (lit "Run mode", cfg.server.runMode.toString),
     (lit "Log output", cfg.logging.output.toString),
     (lit "Log level", cfg.logging.level.toString levelName),
     (lit "TLS certificate", cfg.tls.certificate),
     (lit "TLS private key", cfg.tls.privateKey),
     (lit "Ignore upstream cert", boolToString cfg.upstream.ignoreCertificateVerification),
     (lit "Allow HTTPS over HTTP port", boolToString cfg.server.allowHttpsOverHttpPort),
     (lit "Throttling enabled", boolToString cfg.throttling.enabled)] := by
  unfold startupRows
  split <;> rfl

theorem drop_startupRows (cfg : Config) : (startupRows levelName cfg).drop 12 =
    if cfg.throttling.enabled then
      [(lit "Throttling requests/second", lit (toString cfg.throttling.requestsPerSecond.toNat)),
       (lit "Throttling burst size", lit (toString cfg.throttling.burstSize.toNat))]
    else [] := by
  unfold startupRows
  split <;> rfl

theorem startupRows_shown (cfg : Config) : startupRows levelName cfg.shown = startupRows levelName cfg := by
  cases h : cfg.throttling.enabled <;> simp [startupRows, Config.shown, h]

theorem throttling_of_rows {cfg cfg' : Config} (h : startupRows levelName cfg = startupRows levelName cfg')
    (hsame : cfg.throttling.enabled = cfg'.throttling.enabled) :
    cfg.shown.throttling = cfg'.shown.throttling := by
  have hdrop := congrArg (List.drop 12) h
  rw [drop_startupRows, drop_startupRows] at hdrop
  rw [Config.shown, Config.shown]
  cases hon : cfg.throttling.enabled with
  | false => simp [← hsame, hon]
  | true =>
    simp only [← hsame, hon, if_true, List.cons.injEq, Prod.mk.injEq, true_and, and_true] at hdrop ⊢
    exact Config.Throttling.ext hsame (UInt32.toNat_inj.1 (number_inj hdrop.1))
      (UInt32.toNat_inj.1 (number_inj hdrop.2))

/-- The rows determine the settings: each text is read back on its own. -/
theorem shown_of_rows (hn : LevelNames levelName) {cfg cfg' : Config}
    (h : startupRows levelName cfg = startupRows levelName cfg') : cfg.shown = cfg'.shown := by
  have htake := congrArg (List.take 12) h
  rw [take_startupRows, take_startupRows] at htake
  simp only [List.cons.injEq, Prod.mk.injEq, true_and, and_true] at htake
  obtain ⟨hhttp, hhttps, hup, hmode, hout, hlevel, hcert, hkey, hignore, hallow, hthrottling⟩ := htake
  obtain ⟨hhost, hport⟩ := endpoint_inj hup
  refine Config.ext rfl ?_ ?_ ?_ ?_ (throttling_of_rows h (boolToString_inj hthrottling))
  · exact Config.Server.ext (endpoint_inj hhttp).2 (endpoint_inj hhttps).2 (ServerRunningMode.toString_inj hmode)
      (boolToString_inj hallow) rfl
  · exact Config.TLS.ext hcert hkey
  · exact Config.Upstream.ext hhost hport (boolToString_inj hignore)
  · exact Config.Logging.ext (LoggerType.toString_inj hout) (hn.injective hlevel)

def startupKeys : List Bytes :=
  [lit "Version", lit "HTTP listener", lit "HTTPS listener", lit "Upstream", lit "Run mode", lit "Log output",
   lit "Log level", lit "TLS certificate", lit "TLS private key", lit "Ignore upstream cert",
   lit "Allow HTTPS over HTTP port", lit "Throttling enabled", lit "Throttling requests/second",
   lit "Throttling burst size"]

def startupWords : List Bytes :=
  [appVersion, lit "persist", lit "single-request", lit "console", lit "file", lit "true", lit "false"]

/-- The text in the right cell of a row. -/
inductive Config.Text (cfg : Config) (levelName : LogLevel → Bytes) : Bytes → Prop
  | word {text : Bytes} (h : text ∈ startupWords) : cfg.Text levelName text
  | endpoint {host : Bytes} (port : UInt16) (h : host = lit "localhost" ∨ host = cfg.upstream.host) :
    cfg.Text levelName (MarketBridge.endpoint host port)
  | level (level : LogLevel) : cfg.Text levelName (level.toString levelName)
  | certificate : cfg.Text levelName cfg.tls.certificate
  | privateKey : cfg.Text levelName cfg.tls.privateKey
  | number (n : Nat) : cfg.Text levelName (lit (toString n))

theorem text_of_mem {cfg : Config} {row : Bytes × Bytes} (hrow : row ∈ startupRows levelName cfg) :
    row.1 ∈ startupKeys ∧ cfg.Text levelName row.2 := by
  have hbool : ∀ b : Bool, cfg.Text levelName (boolToString b) := by
    intro b
    exact .word (by cases b <;> decide)
  have hmode : ∀ m : ServerRunningMode, cfg.Text levelName m.toString := by
    intro m
    exact .word (by cases m <;> decide)
  have hout : ∀ t : LoggerType, cfg.Text levelName t.toString := by
    intro t
    exact .word (by cases t <;> decide)
  rw [← List.take_append_drop 12 (startupRows levelName cfg), List.mem_append, take_startupRows,
    drop_startupRows] at hrow
  rcases hrow with hrow | hrow
  · simp only [List.mem_cons, List.not_mem_nil, or_false] at hrow
    rcases hrow with rfl | rfl | rfl | rfl | rfl | rfl | rfl | rfl | rfl | rfl | rfl | rfl
    · exact ⟨by simp [startupKeys], .word (by decide)⟩
    · exact ⟨by simp [startupKeys], .endpoint _ (.inl rfl)⟩
    · exact ⟨by simp [startupKeys], .endpoint _ (.inl rfl)⟩
    · exact ⟨by simp [startupKeys], .endpoint _ (.inr rfl)⟩
    · exact ⟨by simp [startupKeys], hmode _⟩
    · exact ⟨by simp [startupKeys], hout _⟩
    · exact ⟨by simp [startupKeys], .level _⟩
    · exact ⟨by simp [startupKeys], .certificate⟩
    · exact ⟨by simp [startupKeys], .privateKey⟩
    · exact ⟨by simp [startupKeys], hbool _⟩
    · exact ⟨by simp [startupKeys], hbool _⟩
    · exact ⟨by simp [startupKeys], hbool _⟩
  · split at hrow
    · simp only [List.mem_cons, List.not_mem_nil, or_false] at hrow
      rcases hrow with rfl | rfl
      · exact ⟨by simp [startupKeys], .number _⟩
      · exact ⟨by simp [startupKeys], .number _⟩
    · cases hrow

/-- A cell that can be read back does not end in a blank. -/
theorem getLast_of_mem (hn : LevelNames levelName) {cfg : Config} (h : cfg.Trimmed) {row : Bytes × Bytes}
    (hrow : row ∈ startupRows levelName cfg) : row.1.getLast? ≠ some SP ∧ row.2.getLast? ≠ some SP := by
  have hkeys : ∀ key ∈ startupKeys, key.getLast? ≠ some SP := by decide +kernel
  have hwords : ∀ word ∈ startupWords, word.getLast? ≠ some SP := by decide +kernel
  obtain ⟨key, value⟩ := row
  obtain ⟨hkey, htext⟩ := text_of_mem hrow
  refine ⟨hkeys key hkey, ?_⟩
  cases htext with
  | word hw => exact hwords _ hw
  | endpoint port => exact getLast_endpoint _ _
  | level l => exact hn.trimmed l
  | certificate => exact h.certificate
  | privateKey => exact h.privateKey
  | number n => exact getLast_number n

/-! ### The lines -/

theorem le_columnWidth {texts : List Bytes} {text : Bytes} (h : text ∈ texts) :
    text.length ≤ columnWidth texts := by
  have hstart : ∀ (texts : List Bytes) (start : Nat),
      start ≤ texts.foldl (fun width text => max width text.length) start ∧
        ∀ text ∈ texts, text.length ≤ texts.foldl (fun width text => max width text.length) start := by
    intro texts
    induction texts with
    | nil => exact fun start => ⟨le_rfl, fun _ h => nomatch h⟩
    | cons text texts ih =>
      intro start
      obtain ⟨hle, hall⟩ := ih (max start text.length)
      rw [List.foldl_cons, List.forall_mem_cons]
      exact ⟨(le_max_left _ _).trans hle, (le_max_right _ _).trans hle, hall⟩
  exact (hstart texts 0).2 text h

theorem columnWidth_lt {texts : List Bytes} {n : Nat} (hn : 0 < n) (h : ∀ text ∈ texts, text.length < n) :
    columnWidth texts < n := by
  have hstart : ∀ (texts : List Bytes) (start : Nat), start < n → (∀ text ∈ texts, text.length < n) →
      texts.foldl (fun width text => max width text.length) start < n := by
    intro texts
    induction texts with
    | nil => exact fun _ hs _ => hs
    | cons text texts ih =>
      intro start hs hall
      rw [List.forall_mem_cons] at hall
      exact ih _ (max_lt hs hall.1) hall.2
  exact hstart texts 0 hn h

theorem castInt_toNat {n : Nat} (h : n < 2 ^ 31) : (castInt n).toNat = n := by
  have hcast : castInt n = n := @Int.bmod_eq_of_le (n : Int) (2 ^ 32) (by omega) (by omega)
  exact (congrArg Int.toNat hcast).trans (Int.toNat_natCast n)

section

variable {cfg : Config}

theorem keyWidth_lt (cfg : Config) : keyWidth (startupRows levelName cfg) < 2 ^ 31 := by
  have hkeys : ∀ key ∈ startupKeys, key.length < 2 ^ 31 := by decide +kernel
  refine columnWidth_lt (by decide) fun key hkey => ?_
  obtain ⟨row, hrow, rfl⟩ := List.mem_map.1 hkey
  exact hkeys row.1 (text_of_mem hrow).1

theorem valueWidth_lt (h : cfg.Short levelName) : valueWidth (startupRows levelName cfg) < 2 ^ 31 := by
  have htitle : title.length = 23 := by decide
  refine max_lt (columnWidth_lt (by decide) fun value hvalue => ?_) (by rw [htitle, titlePadding]; omega)
  obtain ⟨row, hrow, rfl⟩ := List.mem_map.1 hvalue
  exact h row hrow

/-- The lines of the table of the rows `rows`. -/
def tableOf (rows : List (Bytes × Bytes)) : List Bytes :=
  let line := tableLine (keyWidth rows) (valueWidth rows)
  [line, titleLine (keyWidth rows) (valueWidth rows), line] ++
    rows.map (rowLine (keyWidth rows) (valueWidth rows)) ++ [line]

theorem makeStartupTable_eq (cfg : Config) : makeStartupTable levelName cfg =
    [LF].intercalate (tableOf (startupRows levelName cfg)) := by
  rw [tableOf, ← flatMap_lines, List.flatMap_append, List.flatMap_map]
  simp [makeStartupTable]

theorem length_tableLine (keyWidth valueWidth : Nat) :
    (tableLine keyWidth valueWidth).length = keyWidth + valueWidth + 7 := by
  have hplus : (lit "+").length = 1 := by decide
  simp only [tableLine, dashes, List.length_append, List.length_replicate, hplus]
  omega

theorem length_titleLine {keyWidth valueWidth : Nat} (h : title.length ≤ valueWidth) :
    (titleLine keyWidth valueWidth).length = keyWidth + valueWidth + 7 := by
  have hbar : (lit "|").length = 1 := by decide
  simp only [titleLine, spaces, List.length_append, List.length_replicate, hbar]
  omega

theorem length_rowLine {keyWidth valueWidth : Nat} {row : Bytes × Bytes} (hk : keyWidth < 2 ^ 31)
    (hv : valueWidth < 2 ^ 31) (h₁ : row.1.length ≤ keyWidth) (h₂ : row.2.length ≤ valueWidth) :
    (rowLine keyWidth valueWidth row).length = keyWidth + valueWidth + 7 := by
  have hbars : (lit "| ").length = 2 ∧ (lit " | ").length = 3 ∧ (lit " |").length = 2 := by decide
  simp only [rowLine, setw, castInt_toNat hk, castInt_toNat hv, List.length_append, length_field h₁,
    length_field h₂, hbars]
  omega

theorem length_le_widths {row : Bytes × Bytes} (hrow : row ∈ startupRows levelName cfg) :
    row.1.length ≤ keyWidth (startupRows levelName cfg) ∧
      row.2.length ≤ valueWidth (startupRows levelName cfg) :=
  ⟨le_columnWidth (List.mem_map_of_mem hrow),
    (le_columnWidth (List.mem_map_of_mem hrow)).trans (le_max_left _ _)⟩

theorem length_row (h : cfg.Short levelName) : ∀ row ∈ startupRows levelName cfg,
    (rowLine (keyWidth (startupRows levelName cfg)) (valueWidth (startupRows levelName cfg)) row).length =
      keyWidth (startupRows levelName cfg) + valueWidth (startupRows levelName cfg) + 7 := by
  intro row hrow
  obtain ⟨hk, hv⟩ := length_le_widths hrow
  exact length_rowLine (keyWidth_lt cfg) (valueWidth_lt h) hk hv

theorem title_le_valueWidth (rows : List (Bytes × Bytes)) : title.length ≤ valueWidth rows :=
  (Nat.le_add_right _ _).trans (le_max_right _ _)

theorem length_line (h : cfg.Short levelName) {l : Bytes}
    (hl : l ∈ tableOf (startupRows levelName cfg)) :
    l.length = keyWidth (startupRows levelName cfg) + valueWidth (startupRows levelName cfg) + 7 := by
  simp only [tableOf, List.mem_append, List.mem_cons, List.not_mem_nil, or_false, List.mem_map] at hl
  rcases hl with ((rfl | rfl | rfl) | ⟨row, hrow, rfl⟩) | rfl
  · exact length_tableLine _ _
  · exact length_titleLine (title_le_valueWidth _)
  · exact length_tableLine _ _
  · exact length_row h row hrow
  · exact length_tableLine _ _

/-! ### Line ends -/

theorem notMem_line_iff (cfg : Config) :
    (∀ l ∈ tableOf (startupRows levelName cfg), LF ∉ l) ↔
      ∀ row ∈ startupRows levelName cfg, LF ∉ row.2 := by
  have hkeys : ∀ key ∈ startupKeys, LF ∉ key := by decide +kernel
  have hframe : LF ∉ lit "+" ∧ LF ∉ lit "|" ∧ LF ∉ title ∧ LF ∉ lit "| " ∧ LF ∉ lit " | " ∧ LF ∉ lit " |" := by
    decide +kernel
  obtain ⟨hplus, hbar, htitle, hleft, hmiddle, hright⟩ := hframe
  have hline : ∀ k v, LF ∉ tableLine k v := by
    intro k v
    simp [tableLine, dashes, hplus, LF]
  have htitleLine : ∀ k v, LF ∉ titleLine k v := by
    intro k v
    simp [titleLine, spaces, hbar, htitle, LF, SP]
  have hrow : ∀ k v, ∀ row ∈ startupRows levelName cfg, (LF ∉ rowLine k v row ↔ LF ∉ row.2) := by
    intro k v row hmem
    have hkey := hkeys _ (text_of_mem hmem).1
    simp only [rowLine, setw, List.mem_append, mem_field (show LF ≠ SP by decide), hleft, hmiddle, hright, hkey,
      false_or, or_false]
  simp only [tableOf, List.mem_append, List.mem_cons, List.not_mem_nil, or_false, List.mem_map]
  constructor
  · intro hall row hmem
    exact (hrow _ _ row hmem).1 (hall _ (.inl (.inr ⟨row, hmem, rfl⟩)))
  · rintro hall l (((rfl | rfl | rfl) | ⟨row, hmem, rfl⟩) | rfl)
    · exact hline _ _
    · exact htitleLine _ _
    · exact hline _ _
    · exact (hrow _ _ row hmem).2 (hall row hmem)
    · exact hline _ _

theorem notMem_endpoint {host : Bytes} {port : UInt16} : LF ∉ endpoint host port ↔ LF ∉ host := by
  have hcolon : LF ∉ lit ":" := by decide
  have hport := digits_notMem (b := LF) (by decide) port.toNat
  simp only [endpoint, List.mem_append, hcolon, hport, or_false]

/-- Only three of the texts can hold a line end. -/
theorem notMem_texts_iff (hn : LevelNames levelName) (cfg : Config) :
    (∀ row ∈ startupRows levelName cfg, LF ∉ row.2) ↔
      LF ∉ cfg.upstream.host ∧ LF ∉ cfg.tls.certificate ∧ LF ∉ cfg.tls.privateKey := by
  constructor
  · intro hall
    have htake : ∀ row ∈ (startupRows levelName cfg).take 12, LF ∉ row.2 := by
      intro row hrow
      exact hall row (List.mem_of_mem_take hrow)
    rw [take_startupRows] at htake
    have hup := htake (lit "Upstream", endpoint cfg.upstream.host cfg.upstream.port) (by simp)
    exact ⟨notMem_endpoint.1 hup, htake (lit "TLS certificate", cfg.tls.certificate) (by simp),
      htake (lit "TLS private key", cfg.tls.privateKey) (by simp)⟩
  · rintro ⟨hhost, hcert, hkey⟩ ⟨key, value⟩ hrow
    have hwords : ∀ word ∈ startupWords, LF ∉ word := by decide +kernel
    have htext := (text_of_mem hrow).2
    cases htext with
    | word hw => exact hwords _ hw
    | level l => exact hn.noLineEnd l
    | endpoint port h =>
      refine notMem_endpoint.2 ?_
      rcases h with rfl | rfl
      · decide
      · exact hhost
    | certificate => exact hcert
    | privateKey => exact hkey
    | number n => exact digits_notMem (by decide) n

end

/-- As long as `int` holds the length of every text, all lines of the table have one width exactly when neither the
upstream's host nor a path holds a line end. -/
theorem startup_table_rectangular (hn : LevelNames levelName) (cfg : Config) (h : cfg.Short levelName) :
    (∀ l ∈ (makeStartupTable levelName cfg).splitOn LF,
        l.length = keyWidth (startupRows levelName cfg) + valueWidth (startupRows levelName cfg) + 7) ↔
      LF ∉ cfg.upstream.host ∧ LF ∉ cfg.tls.certificate ∧ LF ∉ cfg.tls.privateKey := by
  rw [makeStartupTable_eq, lines_width_iff (by simp [tableOf]) fun l hl => length_line h hl, notMem_line_iff,
    notMem_texts_iff hn]

/-- The names as the library documents them. -/
def levelNames : LogLevel → Bytes
  | .trace => lit "trace"
  | .debug => lit "debug"
  | .info => lit "info"
  | .warn => lit "warning"
  | .err => lit "error"
  | .critical => lit "critical"
  | .off => lit "off"

theorem levelNames_ok : LevelNames levelNames where
  injective := by
    intro l l'
    cases l <;> cases l' <;> decide +kernel
  noLineEnd := by
    intro l
    cases l <;> decide
  trimmed := by
    intro l
    cases l <;> decide

def throttledConfig : Config := { throttling := { enabled := true } }

def brokenHostConfig : Config := { upstream := { host := lit "api.\nbinance.com" } }

theorem startup_table_rectangular_throttled :
    (∀ l ∈ (makeStartupTable levelNames throttledConfig).splitOn LF, l.length = 58) ∧
    ¬ ∀ l ∈ (makeStartupTable levelNames brokenHostConfig).splitOn LF, l.length = 58 := by
  have hwidth : ∀ cfg ∈ [throttledConfig, brokenHostConfig],
      keyWidth (startupRows levelNames cfg) + valueWidth (startupRows levelNames cfg) + 7 = 58 := by decide +kernel
  have hthrottled := startup_table_rectangular levelNames_ok throttledConfig (by decide)
  have hbroken := startup_table_rectangular levelNames_ok brokenHostConfig (by decide)
  rw [hwidth _ (by simp)] at hthrottled hbroken
  exact ⟨hthrottled.2 ⟨by decide, by decide, by decide⟩, mt hbroken.1 fun h => absurd h.1 (by decide)⟩

/-! ### Reading the table -/

/-- The first line gives the widths. -/
theorem widths_of_line {k v k' v' : Nat} {rest rest' : Bytes}
    (h : tableLine k v ++ rest = tableLine k' v' ++ rest') : k = k' ∧ v = v' := by
  have hform : ∀ (k v : Nat) (rest : Bytes),
      tableLine k v ++ rest = 43 :: (dashes (k + 2) ++ 43 :: (dashes (v + 2) ++ 43 :: rest)) := by
    intro k v rest
    simp [tableLine, lit]
  have hdashes : ∀ n, ∀ b ∈ dashes n, (b != 43) = true := by
    intro n b hb
    rw [(List.mem_replicate.1 hb).2]
    decide
  have hlen : ∀ {m n : Nat} {rest rest' : Bytes}, dashes m ++ 43 :: rest = dashes n ++ 43 :: rest' →
      m = n ∧ rest = rest' := by
    intro m n rest rest' he
    have hfront := congrArg (List.takeWhile (· != 43)) he
    have hback := congrArg (List.dropWhile (· != 43)) he
    rw [Words.takeWhile_append_cons (hdashes _) (by simp), Words.takeWhile_append_cons (hdashes _) (by simp)]
      at hfront
    rw [Words.dropWhile_append_cons (hdashes _) (by simp), Words.dropWhile_append_cons (hdashes _) (by simp),
      List.cons.injEq] at hback
    have hsize := congrArg List.length hfront
    rw [dashes, dashes, List.length_replicate, List.length_replicate] at hsize
    exact ⟨hsize, hback.2⟩
  rw [hform, hform, List.cons.injEq] at h
  obtain ⟨hk, hrest⟩ := hlen h.2
  obtain ⟨hv, -⟩ := hlen hrest
  omega

/-- The cells of a row. -/
def readRow (keyWidth valueWidth : Nat) (line : Bytes) : Bytes × Bytes :=
  (read SP ((line.drop 2).take keyWidth), read SP ((line.drop (keyWidth + 5)).take valueWidth))

theorem readRow_rowLine (hn : LevelNames levelName) {cfg : Config} (h : cfg.Short levelName) (ht : cfg.Trimmed) :
    ∀ row ∈ startupRows levelName cfg,
      readRow (keyWidth (startupRows levelName cfg)) (valueWidth (startupRows levelName cfg))
      (rowLine (keyWidth (startupRows levelName cfg)) (valueWidth (startupRows levelName cfg)) row) = row := by
  intro row hrow
  obtain ⟨hk, hv⟩ := length_le_widths hrow
  obtain ⟨hkey, hvalue⟩ := getLast_of_mem hn ht hrow
  generalize hK : keyWidth (startupRows levelName cfg) = k at *
  generalize hV : valueWidth (startupRows levelName cfg) = v at *
  have hkLen : (field SP k row.1).length = k := length_field hk
  have hvLen : (field SP v row.2).length = v := length_field hv
  have hform : rowLine k v row =
      lit "| " ++ (field SP k row.1 ++ (lit " | " ++ (field SP v row.2 ++ lit " |"))) := by
    simp only [rowLine, setw, castInt_toNat (hK ▸ keyWidth_lt cfg), castInt_toNat (hV ▸ valueWidth_lt h),
      List.append_assoc]
  have hleft : (rowLine k v row).drop 2 = field SP k row.1 ++ (lit " | " ++ (field SP v row.2 ++ lit " |")) := by
    rw [hform]
    exact List.drop_left' (by decide)
  have hright : (rowLine k v row).drop (k + 5) = field SP v row.2 ++ lit " |" := by
    rw [show k + 5 = 2 + (k + 3) by omega, ← List.drop_drop, hleft, ← List.drop_drop, List.drop_left' hkLen]
    exact List.drop_left' (by decide)
  rw [readRow, hleft, hright, List.take_left' hkLen, List.take_left' hvLen, read_field hkey, read_field hvalue]

theorem makeStartupTable_split (cfg : Config) : makeStartupTable levelName cfg =
    tableLine (keyWidth (startupRows levelName cfg)) (valueWidth (startupRows levelName cfg)) ++
      ([LF] ++ titleLine (keyWidth (startupRows levelName cfg)) (valueWidth (startupRows levelName cfg)) ++ [LF] ++
        tableLine (keyWidth (startupRows levelName cfg)) (valueWidth (startupRows levelName cfg)) ++ [LF] ++
        ((startupRows levelName cfg).flatMap (fun row =>
            rowLine (keyWidth (startupRows levelName cfg)) (valueWidth (startupRows levelName cfg)) row ++ [LF]) ++
          tableLine (keyWidth (startupRows levelName cfg)) (valueWidth (startupRows levelName cfg)))) := by
  simp [makeStartupTable]

theorem map_readRow {k v : Nat} {rows : List (Bytes × Bytes)}
    (h : ∀ row ∈ rows, readRow k v (rowLine k v row) = row) :
    (rows.map fun row => rowLine k v row ++ [LF]).map (fun l => readRow k v l.dropLast) = rows := by
  rw [List.map_map]
  conv_rhs => rw [← List.map_id rows]
  refine List.map_congr_left fun row hrow => ?_
  rw [Function.comp_apply, List.dropLast_concat, h row hrow, id]

/-- Both tables have the widths of the first one, so their rows are cut and read alike. -/
theorem rows_of_table (hn : LevelNames levelName) {cfg cfg' : Config} (h : cfg.Short levelName)
    (h' : cfg'.Short levelName) (ht : cfg.Trimmed) (ht' : cfg'.Trimmed)
    (he : makeStartupTable levelName cfg = makeStartupTable levelName cfg') :
    startupRows levelName cfg = startupRows levelName cfg' := by
  rw [makeStartupTable_split, makeStartupTable_split] at he
  obtain ⟨hk, hv⟩ := widths_of_line he
  have hread := readRow_rowLine hn h ht
  have hread' := readRow_rowLine hn h' ht'
  have hlen := length_row h
  have hlen' := length_row h'
  rw [← hk, ← hv] at he hread' hlen'
  generalize keyWidth (startupRows levelName cfg) = k at *
  generalize valueWidth (startupRows levelName cfg) = v at *
  have hblocks := List.append_cancel_right (List.append_cancel_left (List.append_cancel_left he))
  have hlines := flatMap_blocks (w := k + v + 8) (by omega)
    (fun row hrow => by rw [List.length_append, hlen row hrow, List.length_singleton])
    (fun row hrow => by rw [List.length_append, hlen' row hrow, List.length_singleton]) hblocks
  rw [← map_readRow hread, hlines, map_readRow hread']

/-- Two tables with trimmed paths are equal exactly when the settings that are shown are. -/
theorem startup_table_shows (hn : LevelNames levelName) (cfg cfg' : Config) (h : cfg.Short levelName)
    (h' : cfg'.Short levelName) (ht : cfg.Trimmed) (ht' : cfg'.Trimmed) :
    makeStartupTable levelName cfg = makeStartupTable levelName cfg' ↔ cfg.shown = cfg'.shown := by
  constructor
  · intro he
    exact shown_of_rows hn (rows_of_table hn h h' ht ht' he)
  · intro hs
    have hrows := congrArg (startupRows levelName) hs
    rw [startupRows_shown, startupRows_shown] at hrows
    rw [makeStartupTable_eq, makeStartupTable_eq, hrows]

theorem startup_table_shows_port :
    makeStartupTable levelNames {} ≠ makeStartupTable levelNames { upstream := { port := 8443 } } :=
  mt (startup_table_shows levelNames_ok {} { upstream := { port := 8443 } } (by decide) (by decide)
    ⟨by decide, by decide⟩ ⟨by decide, by decide⟩).1 (by decide)

-- The blank at the end of a path cannot be told from the padding.
example : makeStartupTable levelNames { tls := { certificate := lit "server.crt " } } =
    makeStartupTable levelNames { tls := { certificate := lit "server.crt" } } := by decide +kernel

end MarketBridge
