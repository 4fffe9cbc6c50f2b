import MarketBridge.Config
import MarketBridge.HttpSession
import MarketBridge.Registry

/-!
# The server (`server.cpp`, `handshake_session.cpp`)

A connection goes from the listener that accepts it over the protocol detection and the TLS handshake to its
`HTTPSession`; each owner passes the socket on to the next. The server is its registry of sessions together
with every connection; an event completes an operation, runs a handler of a connection or is a step of
`schedule_shutdown`. `stop` of a `HandshakeSession` does nothing.
-/

namespace MarketBridge

abbrev ConnId := Nat

inductive Port
  | http | https
deriving DecidableEq, Repr

inductive SessionKind
  | handshake | http
deriving DecidableEq, Repr

/-- The sessions that are registered: those of the connections. -/
structure SessionId where
  conn : ConnId
  kind : SessionKind
deriving DecidableEq, Repr

inductive HandshakeTask
  | constructed | registered | spawned
  | handshaking (op : Await ErrorCode)
deriving DecidableEq, Repr

inductive Conn
  | fresh
  | accepted (port : Port)  -- the listener has not handled it yet
  | dispatching
  | sniffing (op : Await (ErrorCode × Bytes))
  | handshake (task : HandshakeTask)
  | http (session : HttpSession)
  | closed

def tlsHandshakeSign : Bytes := [0x16, 0x03]

/-- `is_tls`, where the peek has put `n` bytes at the front of `buff`. -/
def isTls (n : Nat) (buff : Bytes) : Bool := tlsHandshakeSign.length ≤ n && buff == tlsHandshakeSign

/-- What a peek of two bytes delivers. -/
def PeekResult (ec : ErrorCode) (data : Bytes) : Prop :=
  if ec = .success then 1 ≤ data.length ∧ data.length ≤ tlsHandshakeSign.length else data = []

instance (ec : ErrorCode) (data : Bytes) : Decidable (PeekResult ec data) := by
  unfold PeekResult; infer_instance

structure Server where
  cfg : Config
  /-- What the storage of the uninitialised buffers of a connection holds. -/
  memory : ConnId → Bytes
  registry : Registry SessionId := {}
  conns : ConnId → Conn := fun _ => .fresh

inductive Server.Event
  | accept (c : ConnId) (port : Port)
  | runListener (c : ConnId) (sslContextOk : Bool)
  | runDispatch (c : ConnId)
  | peeked (c : ConnId) (ec : ErrorCode) (data : Bytes)
  | runSniff (c : ConnId) (sslContextOk : Bool)
  | registerSession (i : SessionId)
  | startSession (i : SessionId)
  | runHandshake (c : ConnId)
  | handshaken (c : ConnId) (ec : ErrorCode)
  | session (c : ConnId) (e : HttpSession.Event)
  | finish (c : ConnId)
  | destroy (i : SessionId)
  | scheduleShutdown
  | compareExchange (k : Nat)
  | collect (k : Nat)
  | stopNext (k : Nat)
  | closeAcceptors (k : Nat)
deriving DecidableEq, Repr

/-- An operation that a peer has to complete is pending. -/
def Conn.isPending : Conn → Bool
  | sniffing op => op.isPending
  | handshake (.handshaking op) => op.isPending
  | http session => session.isPending
  | _ => false

/-- A handler of the connection is ready to run or is running. -/
def Conn.isReady : Conn → Bool
  | accepted _ | dispatching => true
  | sniffing op => !op.isPending
  | handshake (.handshaking op) => !op.isPending
  | handshake _ => true
  | http session => session.header = .constructed || session.isReady
  | fresh | closed => false

/-- The session object is still in use by the connection. -/
def Conn.uses : Conn → SessionKind → Bool
  | handshake _, .handshake => true
  | http _, .http => true
  | _, _ => false

namespace Server

def new (cfg : Config) (memory : ConnId → Bytes) : Server := { cfg, memory }

def setConn (s : Server) (c : ConnId) (conn : Conn) : Server :=
  { s with conns := Function.update s.conns c conn }

def act (s : Server) (a : Registry.Action SessionId) : Option Server :=
  (s.registry.step a).map fun registry => { s with registry }

def upstreamInfo (s : Server) : UpstreamInfo :=
  { host := s.cfg.upstream.host
    port := s.cfg.upstream.port
    ignoreCertificateVerification := s.cfg.upstream.ignoreCertificateVerification }

/-- `launch_http_session` up to the registration. -/
def launchHttpSession (s : Server) (c : ConnId) : Option Server :=
  (s.act (.construct ⟨c, .http⟩)).map (·.setConn c (.http (.new s.upstreamInfo (s.memory c))))

/-- `ssl_handshake` up to the registration; without an SSL context the socket is dropped. -/
def sslHandshake (s : Server) (c : ConnId) (sslContextOk : Bool) : Option Server :=
  if sslContextOk then (s.act (.construct ⟨c, .handshake⟩)).map (·.setConn c (.handshake .constructed))
  else some (s.setConn c .closed)

def dispatchHttpRequest (s : Server) (c : ConnId) : Option Server :=
  if !s.cfg.server.allowHttpsOverHttpPort then s.launchHttpSession c
  else some (s.setConn c (.sniffing .pending))

/-- The rest of `dispatch_http_request` after the peek. -/
def protocolDetected (s : Server) (c : ConnId) (ec : ErrorCode) (data : Bytes) (sslContextOk : Bool) :
    Option Server :=
  if !checkEc ec then some (s.setConn c .closed)
  else if isTls data.length ((data ++ (s.memory c).drop data.length).take tlsHandshakeSign.length) then
    s.sslHandshake c sslContextOk
  else s.launchHttpSession c

/-- `HandshakeSession::start_impl` after the handshake. -/
def handshakeResumed (s : Server) (c : ConnId) (ec : ErrorCode) : Option Server :=
  if checkEc ec then s.launchHttpSession c else some (s.setConn c .closed)

/-- `register_session`; a session that is refused is dropped with its socket. -/
def registerSession (s : Server) (i : SessionId) : Option Server :=
  match s.conns i.conn, i.kind with
  | .handshake .constructed, .handshake =>
    (s.act (.registerSession i)).map
      (·.setConn i.conn (if s.registry.shutdownPending then .closed else .handshake .registered))
  | .http session, .http =>
    if session.header = .constructed then
      (s.act (.registerSession i)).map
        (·.setConn i.conn (if s.registry.shutdownPending then .closed else .http session))
    else none
  | _, _ => none

/-- `session->start()` of a session that has been registered. -/
def startSession (s : Server) (i : SessionId) : Option Server :=
  match s.conns i.conn, i.kind with
  | .handshake .registered, .handshake =>
    (s.act (.start i)).map (·.setConn i.conn (.handshake .spawned))
  | .http session, .http =>
    (session.step .start).bind fun session => (s.act (.start i)).map (·.setConn i.conn (.http session))
  | _, _ => none

/-- The `stop()` that the loop of `stop_sessions` calls. -/
def stopSession (s : Server) (i : SessionId) : Server :=
  match s.conns i.conn, i.kind with
  | .http session, .http => s.setConn i.conn (.http { session with stops := session.stops + 1 })
  | _, _ => s

def step (s : Server) : Event → Option Server
  | .accept c port =>
    match s.conns c with
    | .fresh => if s.registry.acceptorsOpen then some (s.setConn c (.accepted port)) else none
    | _ => none
  | .runListener c sslContextOk =>
    match s.conns c with
    | .accepted .http => some (s.setConn c .dispatching)
    | .accepted .https => s.sslHandshake c sslContextOk
    | _ => none
  | .runDispatch c =>
    match s.conns c with
    | .dispatching => s.dispatchHttpRequest c
    | _ => none
  | .peeked c ec data =>
    match s.conns c with
    | .sniffing .pending =>
      if PeekResult ec data then some (s.setConn c (.sniffing (.ready (ec, data)))) else none
    | _ => none
  | .runSniff c sslContextOk =>
    match s.conns c with
    | .sniffing (.ready (ec, data)) => s.protocolDetected c ec data sslContextOk
    | _ => none
  | .registerSession i => s.registerSession i
  | .startSession i => s.startSession i
  | .runHandshake c =>
    match s.conns c with
    | .handshake .spawned => some (s.setConn c (.handshake (.handshaking .pending)))
    | .handshake (.handshaking (.ready ec)) => s.handshakeResumed c ec
    | _ => none
  | .handshaken c ec =>
    match s.conns c with
    | .handshake (.handshaking .pending) => some (s.setConn c (.handshake (.handshaking (.ready ec))))
    | _ => none
  | .session c e =>
    match s.conns c with
    | .http session =>
      if e = .start ∨ e = .stop then none else (session.step e).map fun session => s.setConn c (.http session)
    | _ => none
  | .finish c =>
    match s.conns c with
    | .http session =>
      if session.header = .done ∧ session.timer ≠ .armed ∧ session.isPending = false ∧
          session.isReady = false then
        some (s.setConn c .closed)
      else none
    | _ => none
  | .destroy i => if (s.conns i.conn).uses i.kind then none else s.act (.destroy i)
  | .scheduleShutdown => s.act .scheduleShutdown
  | .compareExchange k => s.act (.compareExchange k)
  | .collect k => s.act (.collect k)
  | .stopNext k =>
    match s.registry.calls[k]? with
    | some (.stopping _ (i :: _)) => (s.act (.stopNext k)).map (·.stopSession i)
    | _ => none
  | .closeAcceptors k => s.act (.closeAcceptors k)

end Server

end MarketBridge
