import MarketBridge.Config
import MarketBridge.HttpSession
import MarketBridge.Lib.Columns
import Mathlib.Algebra.Ring.Nat

/-!
# The table that is logged at the start (`startup-table.cpp`)

`Server::run` logs the settings that the server starts with, one row each, in a frame. The widths are those of the
longest texts in bytes; `std::setw` takes them as `int`. The names of the log levels are the library's and a
parameter, `levelName`, for `spdlog::level::to_string_view`.
-/

namespace MarketBridge

def ServerRunningMode.toString : ServerRunningMode → Bytes
  | .Persistent => lit "persist"
  | .SingleRequest => lit "single-request"

def LoggerType.toString : LoggerType → Bytes
  | .Console => lit "console"
  | .File => lit "file"

def boolToString (value : Bool) : Bytes := if value then lit "true" else lit "false"

def endpoint (host : Bytes) (port : UInt16) : Bytes := host ++ lit ":" ++ lit (toString port.toNat)

section

variable (levelName : LogLevel → Bytes)

/-- A copy of the name. -/
def LogLevel.toString (level : LogLevel) : Bytes := levelName level

def startupRows (cfg : Config) : List (Bytes × Bytes) :=
  let rows :=
    [(lit "Version", appVersion),
     (lit "HTTP listener", endpoint (lit "localhost") cfg.server.httpPort),
     (lit "HTTPS listener", endpoint (lit "localhost") cfg.server.httpsPort),
     (lit "Upstream", endpoint cfg.upstream.host cfg.upstream.port),
     (lit "Run mode", cfg.server.runMode.toString),
     (lit "Log output", cfg.logging.output.toString),
     (lit "Log level", cfg.logging.level.toString levelName),
     (lit "TLS certificate", cfg.tls.certificate),
     (lit "TLS private key", cfg.tls.privateKey),
     (lit "Ignore upstream cert", boolToString cfg.upstream.ignoreCertificateVerification),
     (lit "Allow HTTPS over HTTP port", boolToString cfg.server.allowHttpsOverHttpPort),
     (lit "Throttling enabled", boolToString cfg.throttling.enabled)]
  if cfg.throttling.enabled then
    rows ++
      [(lit "Throttling requests/second", lit (toString cfg.throttling.requestsPerSecond.toNat)),
       (lit "Throttling burst size", lit (toString cfg.throttling.burstSize.toNat))]
  else rows

end

def titlePadding : Nat := 2

def title : Bytes := lit " " ++ appName ++ lit " startup "

/-- The loop over the rows, for one of the columns. -/
def columnWidth (texts : List Bytes) : Nat := texts.foldl (fun width text => max width text.length) 0

def keyWidth (rows : List (Bytes × Bytes)) : Nat := columnWidth (rows.map (·.1))

def valueWidth (rows : List (Bytes × Bytes)) : Nat :=
  max (columnWidth (rows.map (·.2))) (title.length + titlePadding)

def dashes (n : Nat) : Bytes := List.replicate n 45

def tableLine (keyWidth valueWidth : Nat) : Bytes :=
  lit "+" ++ dashes (keyWidth + 2) ++ lit "+" ++ dashes (valueWidth + 2) ++ lit "+"

def titleLine (keyWidth valueWidth : Nat) : Bytes :=
  let innerWidth := keyWidth + valueWidth + 5
  let leftTitlePadding := (innerWidth - title.length) / 2
  let rightTitlePadding := innerWidth - title.length - leftTitlePadding
  lit "|" ++ spaces leftTitlePadding ++ title ++ spaces rightTitlePadding ++ lit "|"

/-- `static_cast<int>`. -/
def castInt (n : Nat) : Int := (n : Int).bmod (2 ^ 32)

/-- `std::left << std::setw(width) << text`. -/
def setw (width : Int) (text : Bytes) : Bytes := Columns.field SP width.toNat text

def rowLine (keyWidth valueWidth : Nat) (row : Bytes × Bytes) : Bytes :=
  lit "| " ++ setw (castInt keyWidth) row.1 ++ lit " | " ++ setw (castInt valueWidth) row.2 ++ lit " |"

def makeStartupTable (levelName : LogLevel → Bytes) (cfg : Config) : Bytes :=
  let rows := startupRows levelName cfg
  let line := tableLine (keyWidth rows) (valueWidth rows)
  line ++ [LF] ++ titleLine (keyWidth rows) (valueWidth rows) ++ [LF] ++ line ++ [LF] ++
    rows.flatMap (fun row => rowLine (keyWidth rows) (valueWidth rows) row ++ [LF]) ++ line

end MarketBridge
