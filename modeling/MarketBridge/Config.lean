import MarketBridge.Stream

/-! # Settings (`common/config.h`) -/

namespace MarketBridge

inductive ServerRunningMode
  | Persistent     -- handle multiple requests
  | SingleRequest  -- handle exactly one request, then stop
deriving DecidableEq, Repr

inductive LoggerType
  | Console | File
deriving DecidableEq, Repr

/-- `spdlog::level::level_enum`. -/
inductive LogLevel
  | trace | debug | info | warn | err | critical | off
deriving DecidableEq, Repr

structure Config.Server where
  httpPort : UInt16 := 8080
  httpsPort : UInt16 := 8443
  runMode : ServerRunningMode := .Persistent
  allowHttpsOverHttpPort : Bool := false
  workerThreads : UInt16 := 3
deriving DecidableEq

structure Config.TLS where
  certificate : Bytes := lit "cert/server.crt"
  privateKey : Bytes := lit "cert/server.key"
deriving DecidableEq

structure Config.Upstream where
  host : Bytes := lit "api.binance.com"
  port : UInt16 := 443
  ignoreCertificateVerification : Bool := false
deriving DecidableEq

structure Config.Logging where
  output : LoggerType := .Console
  level : LogLevel := .info
deriving DecidableEq

structure Config.Throttling where
  enabled : Bool := false
  requestsPerSecond : UInt32 := 20
  burstSize : UInt32 := 40
deriving DecidableEq

structure Config where
  configPath : Bytes := []
  server : Config.Server := {}
  tls : Config.TLS := {}
  upstream : Config.Upstream := {}
  logging : Config.Logging := {}
  throttling : Config.Throttling := {}
deriving DecidableEq

end MarketBridge
