import MarketBridge.Lib.Lts
import MarketBridge.Lib.Rank
import MarketBridge.Lib.Columns
import MarketBridge.Lib.Words
import MarketBridge.Lib.Envelope
import MarketBridge.Lib.Schedule
import MarketBridge.Lib.Accept
import MarketBridge.Lib.Lines
import MarketBridge.Lib.Ended
import MarketBridge.Stream
import MarketBridge.HttpHelper
import MarketBridge.Forward
import MarketBridge.ForwardSpec
import MarketBridge.HeaderBlock
import MarketBridge.BlockSpec
import MarketBridge.CasingSpec
import MarketBridge.Config
import MarketBridge.ConfigJson
import MarketBridge.ConfigSpec
import MarketBridge.JsonText
import MarketBridge.TextSpec
import MarketBridge.App
import MarketBridge.AppSpec
import MarketBridge.SettingsSpec
import MarketBridge.TokenBucket
import MarketBridge.BucketSpec
import MarketBridge.BucketRuns
import MarketBridge.Asio
import MarketBridge.HttpSession
import MarketBridge.SessionStep
import MarketBridge.Exchange
import MarketBridge.SessionExchange
import MarketBridge.SessionSpec
import MarketBridge.StoppedSpec
import MarketBridge.RelaySpec
import MarketBridge.SourceSpec
import MarketBridge.StopSpec
import MarketBridge.Registry
import MarketBridge.RegistrySpec
import MarketBridge.LeakSpec
import MarketBridge.Server
import MarketBridge.ServerStep
import MarketBridge.SessionRuns
import MarketBridge.SniffSpec
import MarketBridge.ShutdownSpec
import MarketBridge.WorkSpec
import MarketBridge.DrainSpec
import MarketBridge.Listener
import MarketBridge.ListenerSpec
import MarketBridge.System
import MarketBridge.Main
import MarketBridge.SystemStep
import MarketBridge.SystemSpec
import MarketBridge.ThrottleSpec
import MarketBridge.TimeoutSpec
import MarketBridge.AcceptSpec
import MarketBridge.ContextSpec
import MarketBridge.TlsSpec
import MarketBridge.AnswerSpec
import MarketBridge.MemorySpec
import MarketBridge.TeardownSpec
import MarketBridge.HaltSpec
import MarketBridge.EndSpec
import MarketBridge.LateSpec
import MarketBridge.RequestSpec
import MarketBridge.ResponseSpec
import MarketBridge.RetrySpec
import MarketBridge.StartupTable
import MarketBridge.StartupSpec
