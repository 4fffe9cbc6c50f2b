import MarketBridge.AnswerSpec
import MarketBridge.SniffSpec

/-!
# Uninitialised buffers

The buffer of a peek and `buffer_` of an outgoing session are not cleared. `forget` takes out of a state what
their storage holds besides the bytes that have been delivered; no step looks at it, so none of it reaches a
client, an upstream server or a decision.
-/

namespace MarketBridge

/-- The part of `buffer_` that a completed read has written. -/
def OutgoingTask.delivered : OutgoingTask → Bytes → Bytes
  | reading (.ready (_, n)), buffer => buffer.take n
  | _, _ => []

namespace HttpSession

variable {s t : HttpSession} {e : Event}

/-- The session without what it has not been given: the storage of a new buffer and the bytes of `buffer_` that
no completed read has written. -/
def forget (s : HttpSession) : HttpSession :=
  { s with
    memory := []
    outgoingSession :=
      { s.outgoingSession with buffer := s.outgoing.delivered s.outgoingSession.buffer } }

section

variable (s : HttpSession)

@[simp] theorem forget_stopped : s.forget.stopped = s.stopped := rfl
@[simp] theorem forget_header : s.forget.header = s.header := rfl
@[simp] theorem forget_timer : s.forget.timer = s.timer := rfl
@[simp] theorem forget_timeout : s.forget.timeout = s.timeout := rfl
@[simp] theorem forget_reply : s.forget.reply = s.reply := rfl
@[simp] theorem forget_outgoing : s.forget.outgoing = s.outgoing := rfl
@[simp] theorem forget_stops : s.forget.stops = s.stops := rfl

end

theorem delivered_close (o : OutgoingTask) (buffer : Bytes) : o.close.delivered buffer = o.delivered buffer := by
  cases o <;> rfl

theorem delivered_delivered (o : OutgoingTask) (buffer : Bytes) :
    o.delivered (o.delivered buffer) = o.delivered buffer := by
  rcases o with _ | _ | _ | (_ | ⟨ec, n⟩) | _ | _ | _
  case reading.ready => rw [OutgoingTask.delivered, OutgoingTask.delivered, List.take_take, min_self]
  all_goals rfl

@[simp] theorem forget_forget (s : HttpSession) : s.forget.forget = s.forget := by
  simp only [forget, delivered_delivered]

theorem forget_of_eq (h : t = s.forget) : t.forget = s.forget := h ▸ forget_forget s

theorem forget_shutdown (s : HttpSession) : s.forget.shutdown = s.shutdown.forget := by
  simp only [shutdown, forget, delivered_close]

theorem forget_stopHandler (s : HttpSession) : s.forget.stopHandler = s.stopHandler.forget := by
  unfold stopHandler
  rw [forget_stopped]
  split
  · exact forget_shutdown (s.requestStop .stop)
  · rfl

theorem forget_onRequest (s : HttpSession) (allowed : Bool) (request : HttpRequest) :
    (s.forget.onRequest allowed request).forget = (s.onRequest allowed request).forget := by
  unfold onRequest
  rw [forget_stopped]
  cases MarketBridge.onRequest s.stopped allowed request with
  | none => exact forget_forget s
  | disallow | health => exact forget_of_eq rfl
  | outgoing => rfl

theorem forget_headerResumed (s : HttpSession) (ec : ErrorCode) (raw : Bytes) (allowed : Bool) :
    (s.forget.headerResumed ec raw allowed).forget = (s.headerResumed ec raw allowed).forget := by
  unfold headerResumed onHeaderObtained
  simp only [forget_stopped, forget_timer]
  split
  · exact forget_of_eq rfl
  · split
    · exact forget_of_eq rfl
    · exact forget_onRequest { s with header := .done, timer := s.timer.cancel, rawRequest := raw } allowed _

theorem forget_onHeaderTimeout (s : HttpSession) (ec : ErrorCode) :
    (s.forget.onHeaderTimeout ec).forget = (s.onHeaderTimeout ec).forget := by
  unfold onHeaderTimeout
  rw [forget_stopped, forget_stopHandler]
  split
  · exact forget_of_eq rfl
  · split
    · exact forget_of_eq rfl
    · split <;> exact forget_of_eq rfl

theorem forget_upstreamResumed (s : HttpSession) (op : UpstreamOp) (ec : ErrorCode) :
    (s.forget.upstreamResumed op ec).forget = (s.upstreamResumed op ec).forget := by
  unfold upstreamResumed
  split
  · rfl
  · cases op <;> rfl

/-- What a read has delivered is what is taken from the buffer. -/
theorem forget_readResumed (s : HttpSession) {ec : ErrorCode} {n : Nat}
    (h : s.outgoing = .reading (.ready (ec, n))) :
    (s.forget.readResumed ec n).forget = (s.readResumed ec n).forget := by
  have hbuffer : s.forget.outgoingSession.buffer.take n = s.outgoingSession.buffer.take n := by
    show (s.outgoing.delivered s.outgoingSession.buffer).take n = _
    rw [h, OutgoingTask.delivered, List.take_take, min_self]
  unfold readResumed OutgoingSession.readResponse
  by_cases heof : isEof ec = true
  · rw [if_pos heof, if_pos heof]
    rfl
  · rw [if_neg heof, if_neg heof]
    by_cases hec : (!checkEc ec) = true
    · rw [if_pos hec, if_pos hec]
      rfl
    · rw [if_neg hec, if_neg hec, hbuffer]
      rfl

theorem forget_fill (s : HttpSession) (ec : ErrorCode) (data : Bytes) :
    forget { s.forget with
      outgoing := .reading (.ready (ec, data.length)), outgoingSession := s.forget.outgoingSession.fill data } =
    forget { s with
      outgoing := .reading (.ready (ec, data.length)), outgoingSession := s.outgoingSession.fill data } := by
  simp [forget, OutgoingSession.fill, OutgoingTask.delivered]

theorem map_forget_ite {p : Prop} [Decidable p] (h : p → s.forget = t.forget) :
    (if p then some s else none).map forget = (if p then some t else none).map forget := by
  split
  · exact congrArg some (h ‹_›)
  · rfl

theorem forget_step (s : HttpSession) (e : Event) : (s.forget.step e).map forget = (s.step e).map forget := by
  cases e with
  | stop => exact congrArg some (forget_of_eq rfl)
  | start | headerRead | timerExpires | timeoutWritten => exact map_forget_ite fun _ => forget_of_eq rfl
  | relayWritten | upstreamDone => exact map_forget_ite fun _ => rfl
  | upstreamRead ec data => exact map_forget_ite fun _ => forget_fill s ec data
  | startOutgoing ok =>
    refine map_forget_ite fun _ => ?_
    cases ok <;> rfl
  | runStart ok =>
    refine map_forget_ite fun _ => ?_
    cases ok <;> exact forget_of_eq rfl
  | runHeader allowed =>
    simp only [step, forget_header]
    rcases s.header with _ | _ | (_ | ⟨ec, raw⟩) | _
    case reading.ready => exact congrArg some (forget_headerResumed s ec raw allowed)
    all_goals rfl
  | runTimer =>
    simp only [step, forget_timer]
    rcases s.timer with _ | _ | ec | _
    case queued =>
      refine congrArg some ?_
      unfold onTimer
      split <;> exact forget_of_eq rfl
    all_goals rfl
  | runTimeout =>
    simp only [step, forget_timeout]
    rcases s.timeout with _ | ec | (_ | ec) | _
    case spawned => exact congrArg some (forget_onHeaderTimeout s ec)
    case writing.ready =>
      rw [forget_shutdown]
      exact congrArg some (forget_of_eq rfl)
    all_goals rfl
  | replyWritten ec =>
    simp only [step, forget_reply]
    rcases s.reply with _ | _ | _ | (_ | ec') | _
    case writing.pending => exact congrArg some (forget_of_eq rfl)
    all_goals rfl
  | runReply =>
    simp only [step, forget_reply]
    rcases s.reply with _ | _ | request | (_ | ec) | _
    case disallow | health | writing.ready => exact congrArg some (forget_of_eq rfl)
    all_goals rfl
  | runStop =>
    simp only [step, forget_stops]
    rcases s.stops with _ | n
    · rfl
    · exact congrArg some (forget_of_eq (forget_stopHandler { s with stops := n }))
  | runOutgoing =>
    simp only [step, forget_outgoing]
    rcases ho : s.outgoing with _ | _ | ⟨op, _ | ec⟩ | (_ | ⟨ec, n⟩) | (_ | ec) | _ | _
    case waiting.ready => exact congrArg some (forget_upstreamResumed s op ec)
    case reading.ready => exact congrArg some (forget_readResumed s ho)
    case relaying.ready =>
      rw [forget_shutdown]
      rfl
    all_goals rfl

end HttpSession

/-! ### The connections -/

def Conn.forget : Conn → Conn
  | http session => http session.forget
  | conn => conn

namespace Server

def forget (s : Server) : Server := { s with memory := fun _ => [], conns := fun c => (s.conns c).forget }

variable (s : Server) (c : ConnId)

theorem forget_setConn (conn : Conn) : (s.setConn c conn).forget = s.forget.setConn c conn.forget := by
  have hconns : (fun c' => (Function.update s.conns c conn c').forget) =
      Function.update (fun c' => (s.conns c').forget) c conn.forget := by
    funext c'
    rcases eq_or_ne c' c with rfl | hne
    · rw [Function.update_self, Function.update_self]
    · rw [Function.update_of_ne hne, Function.update_of_ne hne]
  simp only [setConn, forget, hconns]

theorem forget_act (a : Registry.Action SessionId) : s.forget.act a = (s.act a).map forget := by
  unfold act
  rw [Option.map_map]
  rfl

theorem conn_forget_forget (conn : Conn) : conn.forget.forget = conn.forget := by
  cases conn with
  | http session => exact congrArg Conn.http session.forget_forget
  | _ => rfl

theorem forget_forget : s.forget.forget = s.forget := by
  simp only [forget, conn_forget_forget]

/-- An action of the registry and a new state of a connection. -/
theorem map_forget_act (a : Registry.Action SessionId) {conn conn' : Conn} (h : conn.forget = conn'.forget) :
    ((s.forget.act a).map (·.setConn c conn)).map forget = ((s.act a).map (·.setConn c conn')).map forget := by
  rw [forget_act, Option.map_map, Option.map_map, Option.map_map]
  refine congrArg (Option.map · _) (funext fun t => ?_)
  show (t.forget.setConn c conn).forget = (t.setConn c conn').forget
  rw [forget_setConn, forget_setConn, forget_forget, h]

theorem map_forget_setConn {conn conn' : Conn} (h : conn.forget = conn'.forget) :
    (some (s.forget.setConn c conn)).map forget = (some (s.setConn c conn')).map forget := by
  refine congrArg some ?_
  rw [forget_setConn, forget_setConn, forget_forget, h]

theorem forget_launchHttpSession :
    (s.forget.launchHttpSession c).map forget = (s.launchHttpSession c).map forget :=
  map_forget_act s c _ rfl

theorem forget_sslHandshake (ok : Bool) :
    (s.forget.sslHandshake c ok).map forget = (s.sslHandshake c ok).map forget := by
  cases ok with
  | true => exact map_forget_act s c _ rfl
  | false => exact map_forget_setConn s c rfl

/-- The sign is not found in bytes that the peek has not delivered. -/
theorem isTls_forget (data memory : Bytes) :
    isTls data.length ((data ++ memory).take tlsHandshakeSign.length) =
      isTls data.length (data.take tlsHandshakeSign.length) := by
  have hlen : tlsHandshakeSign.length = 2 := rfl
  by_cases hd : data.length < 2
  · rw [isTls_short hd, isTls_short hd]
  · rw [hlen, List.take_append_of_le_length (by omega)]

theorem forget_protocolDetected (ec : ErrorCode) (data : Bytes) (ok : Bool) :
    (s.forget.protocolDetected c ec data ok).map forget = (s.protocolDetected c ec data ok).map forget := by
  unfold protocolDetected
  rw [isTls_forget, isTls_forget]
  split
  · exact map_forget_setConn s c rfl
  · split
    · exact forget_sslHandshake s c ok
    · exact forget_launchHttpSession s c

theorem forget_conns : s.forget.conns c = (s.conns c).forget := rfl

theorem forget_dispatchHttpRequest :
    (s.forget.dispatchHttpRequest c).map forget = (s.dispatchHttpRequest c).map forget := by
  have hcfg : s.forget.cfg = s.cfg := rfl
  unfold dispatchHttpRequest
  rw [hcfg]
  split
  · exact forget_launchHttpSession s c
  · exact map_forget_setConn s c rfl

theorem forget_handshakeResumed (ec : ErrorCode) :
    (s.forget.handshakeResumed c ec).map forget = (s.handshakeResumed c ec).map forget := by
  unfold handshakeResumed
  split
  · exact forget_launchHttpSession s c
  · exact map_forget_setConn s c rfl

theorem forget_stopSession (i : SessionId) : (s.forget.stopSession i).forget = (s.stopSession i).forget := by
  obtain ⟨c, kind⟩ := i
  unfold stopSession
  rcases hc : s.conns c with _ | _ | _ | _ | _ | session | _ <;> cases kind <;>
    simp only [forget_conns, hc, Conn.forget]
  case http.http =>
    rw [forget_setConn, forget_setConn, forget_forget]
    exact congrArg (fun session => s.forget.setConn c (.http session)) (HttpSession.forget_of_eq rfl)
  all_goals exact forget_forget s

theorem forget_registerSession (i : SessionId) :
    (s.forget.registerSession i).map forget = (s.registerSession i).map forget := by
  obtain ⟨c, kind⟩ := i
  have hpending : s.forget.registry.shutdownPending = s.registry.shutdownPending := rfl
  unfold registerSession
  rcases hc : s.conns c with _ | _ | _ | _ | (_ | _ | _ | _) | session | _ <;> cases kind <;>
    simp only [forget_conns, hc, Conn.forget, hpending, HttpSession.forget_header]
  case handshake.constructed.handshake => exact map_forget_act s c _ rfl
  case http.http =>
    split
    · refine map_forget_act s c _ ?_
      split
      · rfl
      · exact congrArg Conn.http session.forget_forget
    · rfl

theorem forget_startSession (i : SessionId) :
    (s.forget.startSession i).map forget = (s.startSession i).map forget := by
  obtain ⟨c, kind⟩ := i
  unfold startSession
  rcases hc : s.conns c with _ | _ | _ | _ | (_ | _ | _ | _) | session | _ <;> cases kind <;>
    simp only [forget_conns, hc, Conn.forget]
  case handshake.registered.handshake => exact map_forget_act s c _ rfl
  case http.http =>
    have hstep := HttpSession.forget_step session .start
    cases h : session.step .start <;> cases h' : session.forget.step .start <;> rw [h, h'] at hstep
    case some.some => exact map_forget_act s c _ (congrArg Conn.http (Option.some.inj hstep))
    case none.none => rfl
    all_goals cases hstep

theorem forget_step (e : Event) : (s.forget.step e).map forget = (s.step e).map forget := by
  cases e with
  | accept c port =>
    have hopen : s.forget.registry.acceptorsOpen = s.registry.acceptorsOpen := rfl
    simp only [step, forget_conns, hopen]
    rcases s.conns c with _ | _ | _ | _ | _ | session | _ <;> simp only [Conn.forget]
    case fresh =>
      split
      · exact map_forget_setConn s c rfl
      · rfl
  | runListener c ok =>
    simp only [step, forget_conns]
    rcases s.conns c with _ | (_ | _) | _ | _ | _ | session | _ <;> simp only [Conn.forget]
    case accepted.http => exact map_forget_setConn s c rfl
    case accepted.https => exact forget_sslHandshake s c ok
  | runDispatch c =>
    simp only [step, forget_conns]
    rcases s.conns c with _ | _ | _ | _ | _ | session | _ <;> simp only [Conn.forget]
    case dispatching => exact forget_dispatchHttpRequest s c
  | peeked c ec data =>
    simp only [step, forget_conns]
    rcases s.conns c with _ | _ | _ | (_ | r) | _ | session | _ <;> simp only [Conn.forget]
    case sniffing.pending =>
      split
      · exact map_forget_setConn s c rfl
      · rfl
  | runSniff c ok =>
    simp only [step, forget_conns]
    rcases s.conns c with _ | _ | _ | (_ | ⟨ec, data⟩) | _ | session | _ <;> simp only [Conn.forget]
    case sniffing.ready => exact forget_protocolDetected s c ec data ok
  | registerSession i => exact forget_registerSession s i
  | startSession i => exact forget_startSession s i
  | runHandshake c =>
    simp only [step, forget_conns]
    rcases s.conns c with _ | _ | _ | _ | (_ | _ | _ | (_ | ec)) | session | _ <;> simp only [Conn.forget]
    case handshake.spawned => exact map_forget_setConn s c rfl
    case handshake.handshaking.ready => exact forget_handshakeResumed s c ec
  | handshaken c ec =>
    simp only [step, forget_conns]
    rcases s.conns c with _ | _ | _ | _ | (_ | _ | _ | (_ | ec')) | session | _ <;> simp only [Conn.forget]
    case handshake.handshaking.pending => exact map_forget_setConn s c rfl
  | session c e =>
    simp only [step, forget_conns]
    rcases s.conns c with _ | _ | _ | _ | _ | session | _ <;> simp only [Conn.forget]
    case http =>
      split
      · rfl
      · have hstep := HttpSession.forget_step session e
        cases h : session.step e <;> cases h' : session.forget.step e <;> rw [h, h'] at hstep
        case some.some => exact map_forget_setConn s c (congrArg Conn.http (Option.some.inj hstep))
        case none.none => rfl
        all_goals cases hstep
  | finish c =>
    simp only [step, forget_conns]
    rcases s.conns c with _ | _ | _ | _ | _ | session | _ <;> simp only [Conn.forget]
    case http =>
      have hpending : session.forget.isPending = session.isPending := rfl
      have hready : session.forget.isReady = session.isReady := rfl
      simp only [HttpSession.forget_header, HttpSession.forget_timer, hpending, hready]
      split
      · exact map_forget_setConn s c rfl
      · rfl
  | destroy i =>
    have huses : (s.forget.conns i.conn).uses i.kind = (s.conns i.conn).uses i.kind := by
      rw [forget_conns]
      cases s.conns i.conn <;> cases i.kind <;> rfl
    simp only [step, huses]
    split
    · rfl
    · rw [forget_act, Option.map_map]
      exact congrArg (Option.map · _) (funext forget_forget)
  | scheduleShutdown | compareExchange k | collect k | closeAcceptors k =>
    simp only [step]
    rw [forget_act, Option.map_map]
    exact congrArg (Option.map · _) (funext forget_forget)
  | stopNext k =>
    have hcalls : s.forget.registry.calls = s.registry.calls := rfl
    simp only [step, hcalls]
    split
    · rename_i i rest _
      rw [forget_act, Option.map_map, Option.map_map, Option.map_map]
      exact congrArg (Option.map · _) (funext fun t => forget_stopSession t i)
    · rfl

end Server

/-! ### The whole -/

namespace System

open Lts (Run Det Ignores)

def forget (s : System) : System := { s with memory := fun _ => [], conns := fun c => (s.conns c).forget }

variable {s t : System} {as : List Event} {cfg : Config} {memory : ConnId → Bytes} {now : ℚ}

theorem forget_forget (s : System) : s.forget.forget = s.forget := by
  simp only [forget, Server.conn_forget_forget]

theorem forget_of_eq (h : t = s.forget) : t.forget = s.forget := h ▸ forget_forget s

theorem forget_serverStep (s : System) (e : Server.Event) :
    (s.forget.serverStep e).map forget = (s.serverStep e).map forget := by
  have hview : (fun server : Server => (s.withServer server.forget).forget) =
      fun server => (s.withServer server).forget :=
    funext fun server => by simp only [forget, withServer, Server.forget, Server.conn_forget_forget]
  calc (s.forget.serverStep e).map forget
      _ = (s.server.forget.step e).map fun server => (s.withServer server).forget :=
        Option.map_map forget s.forget.withServer _
      _ = ((s.server.forget.step e).map Server.forget).map fun server => (s.withServer server).forget := by
        rw [Option.map_map]
        exact congrArg (Option.map · _) hview.symm
      _ = ((s.server.step e).map Server.forget).map fun server => (s.withServer server).forget := by
        rw [s.server.forget_step]
      _ = (s.server.step e).map fun server => (s.withServer server).forget := by
        rw [Option.map_map]
        exact congrArg (Option.map · _) hview
      _ = (s.serverStep e).map forget := (Option.map_map forget s.withServer _).symm

theorem forget_listenerStep (s : System) (l : Listeners.Event SessionId) :
    (s.forget.listenerStep l).map forget = (s.listenerStep l).map forget := by
  unfold listenerStep
  rw [Option.map_map, Option.map_map]
  exact congrArg (Option.map · _) (funext fun listeners => forget_of_eq (s := { s with listeners }) rfl)

theorem forget_sslHandshake (s : System) (files : TlsFiles) (e : Bool → Server.Event) :
    (s.forget.sslHandshake files e).map forget = (s.sslHandshake files e).map forget :=
  forget_serverStep { s with
    sslContext := (s.sslContext.prepare (initSslContext s.listeners.cfg.tls files)).2 } _

theorem forget_completionHandler (s : System) (p : Port) (c : ConnId) (files : TlsFiles) :
    (s.forget.completionHandler p c files).map forget = (s.completionHandler p c files).map forget := by
  cases p with
  | http => exact forget_serverStep s _
  | https => exact forget_sslHandshake s files _

theorem detectsTls_forget (s : Server) (c : ConnId) : s.forget.detectsTls c = s.detectsTls c := by
  unfold Server.detectsTls
  rw [Server.forget_conns]
  rcases s.conns c with _ | _ | _ | (_ | ⟨ec, data⟩) | _ | session | _ <;> simp only [Conn.forget]
  rw [Server.isTls_forget, Server.isTls_forget]

theorem ignores_forget : Ignores step forget := by
  intro s e
  cases e with
  | tick now =>
    have hnow : s.forget.now = s.now := rfl
    simp only [step, hnow]
    split
    · exact congrArg some (forget_of_eq (s := { s with now }) rfl)
    · rfl
  | accepted p c =>
    simp only [step, listenerStep]
    show Option.map forget (((s.listeners.step _).map _).bind _) = _
    cases s.listeners.step (.accepted p .success) with
    | none => rfl
    | some listeners =>
      exact forget_serverStep { s with listeners, sockets := Function.update s.sockets p (some c) } _
  | dispatch p files =>
    have hsockets : s.forget.sockets = s.sockets := rfl
    have hlisteners : s.forget.listeners = s.listeners := rfl
    simp only [step, listenerStep, hsockets, hlisteners]
    cases s.sockets p with
    | none => rfl
    | some c =>
      cases s.listeners.step (.dispatch p) with
      | none => rfl
      | some listeners =>
        exact forget_completionHandler { s with listeners, sockets := Function.update s.sockets p none } p c files
  | runSniff c files =>
    have hserver : s.forget.server = s.server.forget := rfl
    simp only [step, hserver, detectsTls_forget]
    split
    · exact forget_sslHandshake s files _
    · exact forget_serverStep s _
  | runStart c ok =>
    exact forget_serverStep
      { s with timers := if ok then Function.update s.timers c (some s.now) else s.timers } _
  | timerExpires c =>
    have htimers : s.forget.timers = s.timers := rfl
    have hnow : s.forget.now = s.now := rfl
    simp only [step, htimers, hnow]
    cases s.timers c with
    | none => rfl
    | some start =>
      simp only
      split
      · exact forget_serverStep s _
      · rfl
  | runHeader c =>
    have hconns : s.forget.conns c = (s.conns c).forget := rfl
    simp only [step, hconns]
    rcases s.conns c with _ | _ | _ | _ | _ | session | _ <;> simp only [Conn.forget]
    have hasks : session.forget.asksLimiter = session.asksLimiter := rfl
    rw [hasks]
    split
    · exact forget_serverStep (s.allow c).2 _
    · exact forget_serverStep s _
  | closeAcceptors k => exact forget_listenerStep s _
  | listener e =>
    simp only [step]
    split
    · rfl
    · exact forget_listenerStep s e
  | server e =>
    simp only [step]
    split
    · rfl
    · exact forget_serverStep s e

/-- What the storage of the buffers holds when they are made is not observed: with any other contents the same
run is possible, with the same answers to every client, the same request to every upstream server, the same
decisions and the same registry and listeners. -/
theorem memory_unobserved (h : Run (Det step) (new cfg memory now) as s) (memory' : ConnId → Bytes) :
    ∃ s', Run (Det step) (new cfg memory' now) as s' ∧ s'.decisions = s.decisions ∧ s'.listeners = s.listeners ∧
      ∀ c session, s.conns c = .http session → ∃ session', s'.conns c = .http session' ∧
        session'.handed = session.handed ∧
        session'.outgoingSession.httpRequest = session.outgoingSession.httpRequest ∧
        session'.outgoingSession.response = session.outgoingSession.response := by
  have hnew : (new cfg memory' now).forget = (new cfg memory now).forget := rfl
  obtain ⟨s', hr, hs⟩ := ignores_forget.run h hnew
  have hdecisions : s'.forget.decisions = s.forget.decisions := congrArg System.decisions hs
  have hlisteners : s'.forget.listeners = s.forget.listeners := congrArg System.listeners hs
  refine ⟨s', hr, hdecisions, hlisteners, fun c session hc => ?_⟩
  have hconn : (s'.conns c).forget = (s.conns c).forget := congrFun (congrArg System.conns hs) c
  rw [hc] at hconn
  generalize hc' : s'.conns c = conn at hconn
  cases conn with
  | http session' =>
    have hforget : session'.forget = session.forget := Conn.http.inj hconn
    exact ⟨session', rfl, congrArg (·.handed) hforget, congrArg (·.outgoingSession.httpRequest) hforget,
      congrArg (·.outgoingSession.response) hforget⟩
  | _ => cases hconn

/-- Storage that has been used before. -/
def stale (_ : ConnId) : Bytes := lit "HTTP/1.1 401 Unauthorized"

theorem memory_unobserved_relay : ∃ s session, Run (Det step) (new {} (fun _ => []) 0) relayBesideHealth s ∧
    s.conns 0 = .http session ∧ session.handed = [(.relay, lit "HTTP/1.1 200 OK\r\n\r\n")] ∧
    ∃ s' session', Run (Det step) (new {} stale 0) relayBesideHealth s' ∧ s'.conns 0 = .http session' ∧
      session'.handed = session.handed := by
  obtain ⟨s, h, hs⟩ := Lts.exists_run (p := fun s : System => (s.conns 0).session?.any fun session =>
      session.handed = [(.relay, lit "HTTP/1.1 200 OK\r\n\r\n")])
    (show ((relayBesideHealth.foldlM step (new {} (fun _ => []) 0)).any _) = true by decide +kernel)
  obtain ⟨session, hc, hh⟩ := (Option.any_eq_true _ _).1 hs
  have hc := Conn.session?_eq_some.1 hc
  obtain ⟨s', h', -, -, hsessions⟩ := memory_unobserved h stale
  obtain ⟨session', hc', hhanded, -⟩ := hsessions 0 session hc
  exact ⟨s, session, h, hc, of_decide_eq_true hh, s', session', h', hc', hhanded⟩

end System

end MarketBridge
