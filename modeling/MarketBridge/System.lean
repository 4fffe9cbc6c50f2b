import MarketBridge.Listener
import MarketBridge.TokenBucket

/-!
# The running server (`server.cpp`)

What `Server::run` sets going, with everything that its parts share: the registry and the accepted sockets,
which pass from a listener to a connection, the rate limiter, the SSL context and the steady clock. An event
of a part that uses none of these is taken over as it is; the others have events of their own, in which the
limiter, the context and the clock decide what the models of the parts leave open.
-/

namespace MarketBridge

/-- Whether the files that `init_ssl_context` reads can be loaded. -/
structure TlsFiles where
  certificate : Bool
  privateKey : Bool
deriving DecidableEq, Repr

/-- `init_ssl_context`: a file whose name is empty is not loaded. -/
def initSslContext (tls : Config.TLS) (files : TlsFiles) : Bool :=
  (tls.certificate.isEmpty || files.certificate) && (tls.privateKey.isEmpty || files.privateKey)

structure SslContext where
  /-- The `once_flag` in `ssl_context_init_flag_` has been used. -/
  initFlag : Bool := false
  /-- The results of `init_ssl_context`, in order. -/
  inits : List Bool := []
deriving DecidableEq, Repr

namespace SslContext

/-- `std::call_once`, where `result` is what `init_ssl_context` returns if it is called. -/
def callOnce (x : SslContext) (result : Bool) : Bool × SslContext :=
  if x.initFlag then (true, x) else (result, { initFlag := true, inits := x.inits ++ [result] })

/-- `ssl_handshake` up to the check of `ssl_context_initialized`; a failure puts a new flag in place. -/
def prepare (x : SslContext) (result : Bool) : Bool × SslContext :=
  let (initialized, x) := x.callOnce result
  (initialized, if !initialized then { x with initFlag := false } else x)

end SslContext

/-- `reading_timeout_guard` in seconds. -/
def headerTimeout : ℚ := 5

/-- An answer of `rate_limiter_->allow()`. -/
structure Decision where
  conn : ConnId
  time : ℚ
  allowed : Bool
deriving DecidableEq

/-- `on_request` will be reached, and with it `rate_limiter_->allow()`. -/
def HttpSession.asksLimiter (session : HttpSession) : Bool :=
  match session.header with
  | .reading (.ready (ec, _)) => checkEc ec && !session.stopped
  | _ => false

/-- The connection is taken for a TLS one by `dispatch_http_request`. -/
def Server.detectsTls (s : Server) (c : ConnId) : Bool :=
  match s.conns c with
  | .sniffing (.ready (ec, data)) =>
    checkEc ec && isTls data.length ((data ++ (s.memory c).drop data.length).take tlsHandshakeSign.length)
  | _ => false

structure System where
  memory : ConnId → Bytes
  listeners : Listeners SessionId
  conns : ConnId → Conn := fun _ => .fresh
  /-- The sockets that the listeners have been given and not passed on. -/
  sockets : Port → Option ConnId := fun _ => none
  limiter : RateLimiter
  sslContext : SslContext := {}
  now : ℚ
  /-- When `reading_timeout_guard` of the connection was started. -/
  timers : ConnId → Option ℚ := fun _ => none
  decisions : List Decision := []

inductive System.Event
  | tick (now : ℚ)
  | accepted (p : Port) (c : ConnId)
  | dispatch (p : Port) (files : TlsFiles)
  | runSniff (c : ConnId) (files : TlsFiles)
  | runStart (c : ConnId) (tlsContextOk : Bool)
  | timerExpires (c : ConnId)
  | runHeader (c : ConnId)
  | closeAcceptors (k : Nat)
  | listener (e : Listeners.Event SessionId)
  | server (e : Server.Event)
deriving DecidableEq

/-- The event of a listener has an event of the system for it. -/
def Listeners.Event.isShared {ι : Type} : Listeners.Event ι → Bool
  | .accepted _ ec => checkEc ec
  | .dispatch _ | .registry _ => true
  | _ => false

/-- The event of the connections has an event of the system for it. -/
def Server.Event.isShared : Server.Event → Bool
  | .accept .. | .runListener .. | .runSniff .. | .scheduleShutdown | .closeAcceptors _ => true
  | .session _ (.runStart _) | .session _ .timerExpires | .session _ (.runHeader _) => true
  | _ => false

namespace System

/-- After the installing calls of `Server::run`; `now` is read by the constructor of the bucket. -/
def new (cfg : Config) (memory : ConnId → Bytes) (now : ℚ) : System where
  memory := memory
  listeners := .new cfg
  limiter := initRateLimiter cfg.throttling now
  now := now

/-- The connections and the registry. -/
def server (s : System) : Server where
  cfg := s.listeners.cfg
  memory := s.memory
  registry := s.listeners.registry
  conns := s.conns

def withServer (s : System) (server : Server) : System :=
  { s with listeners := { s.listeners with registry := server.registry }, conns := server.conns }

def serverStep (s : System) (e : Server.Event) : Option System := (s.server.step e).map s.withServer

def listenerStep (s : System) (e : Listeners.Event SessionId) : Option System :=
  (s.listeners.step e).map fun listeners => { s with listeners }

/-- A handler that calls `ssl_handshake`; `e` is its event, given what `ssl_context_initialized` becomes. -/
def sslHandshake (s : System) (files : TlsFiles) (e : Bool → Server.Event) : Option System :=
  let (initialized, sslContext) := s.sslContext.prepare (initSslContext s.listeners.cfg.tls files)
  { s with sslContext }.serverStep (e initialized)

/-- The completion handler of the listener on the port, called with the socket of the connection. -/
def completionHandler (s : System) (p : Port) (c : ConnId) (files : TlsFiles) : Option System :=
  match p with
  | .http => s.serverStep (.runListener c true)
  | .https => s.sslHandshake files (.runListener c)

/-- The answer of `rate_limiter_->allow()` to the connection. -/
def allow (s : System) (c : ConnId) : Bool × System :=
  let (allowed, limiter) := s.limiter.allow s.now
  (allowed, { s with limiter, decisions := s.decisions ++ [⟨c, s.now, allowed⟩] })

def step (s : System) : Event → Option System
  | .tick now => if s.now ≤ now then some { s with now } else none
  | .accepted p c =>
    (s.listenerStep (.accepted p .success)).bind fun s =>
      { s with sockets := Function.update s.sockets p (some c) }.serverStep (.accept c p)
  | .dispatch p files =>
    match s.sockets p with
    | some c =>
      (s.listenerStep (.dispatch p)).bind fun s =>
        { s with sockets := Function.update s.sockets p none }.completionHandler p c files
    | none => none
  | .runSniff c files =>
    if s.server.detectsTls c then s.sslHandshake files (.runSniff c) else s.serverStep (.runSniff c true)
  | .runStart c tlsContextOk =>
    { s with timers := if tlsContextOk then Function.update s.timers c (some s.now) else s.timers }.serverStep
      (.session c (.runStart tlsContextOk))
  | .timerExpires c =>
    match s.timers c with
    | some start =>
      if start + headerTimeout ≤ s.now then s.serverStep (.session c .timerExpires) else none
    | none => none
  | .runHeader c =>
    match s.conns c with
    | .http session =>
      if session.asksLimiter then (s.allow c).2.serverStep (.session c (.runHeader (s.allow c).1))
      else s.serverStep (.session c (.runHeader true))
    | _ => none
  | .closeAcceptors k => s.listenerStep (.registry (.closeAcceptors k))
  | .listener e => if e.isShared then none else s.listenerStep e
  | .server e => if e.isShared then none else s.serverStep e

end System

end MarketBridge
