import MarketBridge.Asio
import MarketBridge.Forward

/-!
# `HTTPSession` and its `OutgoingSession` (`http-session.cpp`)

The handlers of a session run one at a time on its strand. The state says where each of its coroutines
stands; an event is the completion of an operation (by a peer, the resolver or the clock), a call from the
server, or the run of a handler that is ready. Completions come in any order, handlers run in any order of
readiness.

Besides the members of the two classes a session keeps what its runs are judged by: every buffer handed to
`async_write` on the client stream, whether `response_` was assigned while a write of it was in flight, and
the answers of `request_stop`.
-/

namespace MarketBridge

/-- `start_impl` with `obtain_header`: the coroutine that reads the header. -/
inductive HeaderTask
  | constructed  -- `start` has not been called
  | spawned
  | reading (op : Await (ErrorCode × Bytes))
  | done
deriving DecidableEq, Repr

/-- `reading_timeout_guard`; `queued ec` is a wait whose handler has not run yet. -/
inductive HeaderTimer
  | idle | armed
  | queued (ec : ErrorCode)
  | done
deriving DecidableEq, Repr

/-- The coroutine `on_header_timeout`. -/
inductive TimeoutTask
  | none
  | spawned (ec : ErrorCode)
  | writing (op : Await ErrorCode)
  | done
deriving DecidableEq, Repr

/-- The coroutine `on_request_disallow` or `on_health_request`. -/
inductive ReplyTask
  | none | disallow
  | health (request : HttpRequest)
  | writing (op : Await ErrorCode)
  | done

/-- What an outgoing session waits for before it reads. -/
inductive UpstreamOp
  | resolve | connect | handshake | write
deriving DecidableEq, Repr

/-- The coroutine of an `OutgoingSession`; `relaying` is the client write it waits for at its end. -/
inductive OutgoingTask
  | none | spawned
  | waiting (step : UpstreamOp) (op : Await ErrorCode)
  | reading (op : Await (ErrorCode × Nat))
  | relaying (op : Await ErrorCode)
  | done
  | failed  -- it has ended early
deriving DecidableEq, Repr

structure OutgoingSession where
  buffer : Bytes := []
  response : Bytes := []
  httpRequest : Bytes := []
deriving DecidableEq, Repr

def bufferSize : Nat := 4096

inductive ResponseKind
  | timeout | disallow | health | relay
deriving DecidableEq, Repr

inductive StopCaller
  | stop | headerTimeout
deriving DecidableEq, Repr

structure HttpSession where
  upstreamInfo : UpstreamInfo
  /-- What the storage of an `OutgoingSession::buffer_` holds before the first read. -/
  memory : Bytes
  stopped : Bool := false
  isOpen : Bool := true
  header : HeaderTask := .constructed
  timer : HeaderTimer := .idle
  timeout : TimeoutTask := .none
  reply : ReplyTask := .none
  outgoing : OutgoingTask := .none
  outgoingSession : OutgoingSession := {}
  /-- The handlers of `stop` that are queued. -/
  stops : Nat := 0
  rawRequest : Bytes := []
  request : HttpRequest := {}
  response : Bytes := []
  allowCalls : Nat := 0
  stopCalls : List (StopCaller × Bool) := []
  handed : List (ResponseKind × Bytes) := []
  clobbered : Bool := false

inductive HttpSession.Event
  | start
  | stop
  | headerRead (ec : ErrorCode) (raw : Bytes)
  | timerExpires
  | timeoutWritten (ec : ErrorCode)
  | replyWritten (ec : ErrorCode)
  | relayWritten (ec : ErrorCode)
  | upstreamDone (step : UpstreamOp) (ec : ErrorCode)
  | upstreamRead (ec : ErrorCode) (data : Bytes)
  | runStart (tlsContextOk : Bool)
  | runHeader (allowed : Bool)
  | runTimer
  | runTimeout
  | runReply
  | runStop
  | startOutgoing (sslOk : Bool)
  | runOutgoing
deriving DecidableEq, Repr

/-! ### The texts of the local responses -/

def appName : Bytes := lit "market-bridge"

def appVersion : Bytes := lit "1.0.1"

def spaces (n : Nat) : Bytes := List.replicate n SP

def healthBody : Bytes :=
  [LF] ++ spaces 36 ++ lit "\x7b\n" ++
  spaces 40 ++ lit "\"service\": \"" ++ appName ++ lit "\",\n" ++
  spaces 40 ++ lit "\"status\": \"" ++ lit "UP" ++ lit "\",\n" ++
  spaces 40 ++ lit "\"version\": \"" ++ appVersion ++ lit "\" \n" ++
  spaces 36 ++ lit "\x7d"

def healthResponse : Bytes :=
  let headers := ((∅ : HeaderMap).insert (lit "Content-Type") (lit "application/json")).insert
    (lit "Content-Length") (lit (toString healthBody.length))
  HttpResponse.toString
    { statusCode := HTTPResponseCodes.OK.toInt
      reason := lit "OK"
      headers := headers.insert (lit "Connection") (lit "close")
      body := healthBody }

def disallowReason : Bytes := lit "Too Many Requests"

def disallowBody : Bytes :=
  [LF] ++ spaces 32 ++ lit "\x7b\n" ++
  spaces 36 ++ lit "\"status\": \"" ++ lit (toString HTTPResponseCodes.TooManyRequests.toInt) ++
    lit "\",\n" ++
  spaces 36 ++ lit "\"error\": \"" ++ disallowReason ++ lit "\"\n" ++
  spaces 32 ++ lit "\x7d"

def disallowResponse : Bytes :=
  let response := generateHttpResponse .TooManyRequests disallowReason disallowBody .ApplicationJson .Close
  HttpResponse.toString { response with headers := response.headers.insert (lit "Retry-After") (lit "1") }

def timeoutResponse : Bytes :=
  (generateHttpResponse .RequestTimeout (lit "Request Timeout") []).toString

/-! ### The outgoing session -/

/-- One pass of the loop of `read_response` on the result of a read. -/
inductive ReadStep
  | completed (ec : ErrorCode) (response : Bytes)
  | failed
  | again (session : OutgoingSession)
deriving DecidableEq

def OutgoingSession.readResponse (o : OutgoingSession) (ec : ErrorCode) (n : Nat) : ReadStep :=
  if isEof ec then .completed ec o.response
  else if !checkEc ec then .failed
  else .again { o with response := o.response ++ o.buffer.take n }

/-- What a read delivers stands at the front of `buffer_`; the bytes behind it stay. -/
def OutgoingSession.fill (o : OutgoingSession) (data : Bytes) : OutgoingSession :=
  { o with buffer := data ++ o.buffer.drop data.length }

/-! ### Sockets and stopping -/

/-- The cancelled operations of a closed client socket. -/
def HeaderTask.close : HeaderTask → HeaderTask
  | reading op => reading (op.close (.operationAborted, []))
  | t => t

def TimeoutTask.close : TimeoutTask → TimeoutTask
  | writing op => writing (op.close .operationAborted)
  | t => t

def ReplyTask.close : ReplyTask → ReplyTask
  | writing op => writing (op.close .operationAborted)
  | t => t

def OutgoingTask.close : OutgoingTask → OutgoingTask
  | relaying op => relaying (op.close .operationAborted)
  | t => t

def TimeoutTask.isWriting : TimeoutTask → Bool
  | writing op => op.isPending
  | _ => false

def ReplyTask.isWriting : ReplyTask → Bool
  | writing op => op.isPending
  | _ => false

def OutgoingTask.isWriting : OutgoingTask → Bool
  | relaying op => op.isPending
  | _ => false

def HeaderTask.isPending : HeaderTask → Bool
  | reading op => op.isPending
  | _ => false

def OutgoingTask.isPending : OutgoingTask → Bool
  | waiting _ op => op.isPending
  | reading op => op.isPending
  | _ => false

def HeaderTask.isReady : HeaderTask → Bool
  | spawned => true
  | reading op => !op.isPending
  | _ => false

def HeaderTimer.isReady : HeaderTimer → Bool
  | queued _ => true
  | _ => false

def TimeoutTask.isReady : TimeoutTask → Bool
  | spawned _ => true
  | writing op => !op.isPending
  | _ => false

def ReplyTask.isReady : ReplyTask → Bool
  | disallow | health _ => true
  | writing op => !op.isPending
  | _ => false

def OutgoingTask.isReady : OutgoingTask → Bool
  | spawned => true
  | waiting _ op => !op.isPending
  | reading op => !op.isPending
  | relaying op => !op.isPending
  | _ => false

/-- `cancel()`: a wait that has expired keeps its handler and its code. -/
def HeaderTimer.cancel : HeaderTimer → HeaderTimer
  | armed => queued .operationAborted
  | t => t

namespace HttpSession

def new (upstreamInfo : UpstreamInfo) (memory : Bytes) : HttpSession := { upstreamInfo, memory }

/-- `shutdown`: the client socket is closed. -/
def shutdown (s : HttpSession) : HttpSession :=
  { s with
    isOpen := false
    header := s.header.close
    timeout := s.timeout.close
    reply := s.reply.close
    outgoing := s.outgoing.close }

/-- The state after `request_stop` by `caller`, which answers `!s.stopped`. -/
def requestStop (s : HttpSession) (caller : StopCaller) : HttpSession :=
  { s with stopped := true, stopCalls := s.stopCalls ++ [(caller, !s.stopped)] }

/-- The handler that `stop` dispatches to the strand. -/
def stopHandler (s : HttpSession) : HttpSession :=
  if !s.stopped then (s.requestStop .stop).shutdown else s.requestStop .stop

/-- A write on the client stream is in flight. -/
def isWriting (s : HttpSession) : Bool :=
  s.timeout.isWriting || s.reply.isWriting || s.outgoing.isWriting

/-- An operation that a peer has to complete is pending: one on the client socket, or an upstream step. -/
def isPending (s : HttpSession) : Bool := s.header.isPending || s.isWriting || s.outgoing.isPending

/-- A handler is ready to run. -/
def isReady (s : HttpSession) : Bool :=
  s.header.isReady || s.timer.isReady || s.timeout.isReady || s.reply.isReady || s.outgoing.isReady ||
    s.stops ≠ 0

/-- `response_ = response`, then `async_write(http_stream_, buffer(response_))`. The write keeps a pointer into
`response_`: `handed` holds the text as it is when the write is started, and once `clobbered` is set the client may
have got other bytes. -/
def respond (s : HttpSession) (kind : ResponseKind) (response : Bytes) : HttpSession :=
  { s with
    response
    clobbered := s.clobbered || s.isWriting
    handed := s.handed ++ [(kind, response)] }

/-- The write that `respond` has started. -/
def clientWrite (s : HttpSession) : Await ErrorCode := .start s.isOpen .badDescriptor

/-! ### The header -/

def obtainHeader (s : HttpSession) : HttpSession :=
  { s with timer := .armed, header := .reading (.start s.isOpen (.badDescriptor, [])) }

def startImpl (s : HttpSession) (tlsContextOk : Bool) : HttpSession :=
  if tlsContextOk then s.obtainHeader else { s with header := .done }

/-- `on_request`, where `allowed` is what `rate_limiter_->allow()` answers if it is called. -/
def onRequest (s : HttpSession) (allowed : Bool) (request : HttpRequest) : HttpSession :=
  match MarketBridge.onRequest s.stopped allowed request with
  | .none => s
  | .disallow => { s with allowCalls := s.allowCalls + 1, reply := .disallow }
  | .health request => { s with allowCalls := s.allowCalls + 1, reply := .health request }
  | .outgoing request =>
    { s with
      allowCalls := s.allowCalls + 1
      request
      outgoing := .spawned
      outgoingSession := { buffer := s.memory } }

def onHeaderObtained (s : HttpSession) (ec : ErrorCode) (raw : Bytes) (allowed : Bool) : HttpSession :=
  if isAborted ec || s.stopped then s
  else if !checkEc ec then s.stopHandler
  else { s with rawRequest := raw }.onRequest allowed (parseRequest raw)

/-- The rest of `obtain_header` after the read has completed. -/
def headerResumed (s : HttpSession) (ec : ErrorCode) (raw : Bytes) (allowed : Bool) : HttpSession :=
  let s := { s with header := .done }
  if !checkEc ec then s
  else { s with timer := s.timer.cancel }.onHeaderObtained ec raw allowed

/-- The handler of the timer's wait. -/
def onTimer (s : HttpSession) (ec : ErrorCode) : HttpSession :=
  let s := { s with timer := .done }
  if !isAborted ec then { s with timeout := .spawned ec } else s

/-- `on_header_timeout` up to its write. -/
def onHeaderTimeout (s : HttpSession) (ec : ErrorCode) : HttpSession :=
  if isCancelled ec then { s with timeout := .done }
  else if !checkEc ec then { s.stopHandler with timeout := .done }
  else if s.stopped then { s.requestStop .headerTimeout with timeout := .done }
  else
    let s := (s.requestStop .headerTimeout).respond .timeout timeoutResponse
    { s with timeout := .writing s.clientWrite }

/-! ### The replies -/

def onRequestDisallow (s : HttpSession) : HttpSession :=
  let s := s.respond .disallow disallowResponse
  { s with reply := .writing s.clientWrite }

def onHealthRequest (s : HttpSession) (_request : HttpRequest) : HttpSession :=
  let s := s.respond .health healthResponse
  { s with reply := .writing s.clientWrite }

def onOutgoingSessionCompleted (s : HttpSession) (_ec : ErrorCode) (response : Bytes) : HttpSession :=
  let s := s.respond .relay response
  { s with outgoing := .relaying s.clientWrite }

/-! ### The upstream steps -/

def outgoingStartImpl (s : HttpSession) (sslOk : Bool) : HttpSession :=
  { s with outgoing := if sslOk then .waiting .resolve .pending else .failed }

def connect (s : HttpSession) : HttpSession := { s with outgoing := .waiting .connect .pending }

def onConnect (s : HttpSession) : HttpSession := { s with outgoing := .waiting .handshake .pending }

def sendRequest (s : HttpSession) : HttpSession :=
  let httpRequest := generateRequest s.request s.upstreamInfo.host
  { s with
    outgoing := .waiting .write .pending
    outgoingSession := { s.outgoingSession with httpRequest } }

/-- The rest of the coroutine after the operation of `step`; an error ends it. The handshake throws its
error, which ends the detached coroutine as well. -/
def upstreamResumed (s : HttpSession) (step : UpstreamOp) (ec : ErrorCode) : HttpSession :=
  if !checkEc ec then { s with outgoing := .failed }
  else
    match step with
    | .resolve => s.connect
    | .connect => s.onConnect
    | .handshake => s.sendRequest
    | .write => { s with outgoing := .reading .pending }

def readResumed (s : HttpSession) (ec : ErrorCode) (n : Nat) : HttpSession :=
  match s.outgoingSession.readResponse ec n with
  | .completed ec response => s.onOutgoingSessionCompleted ec response
  | .failed => { s with outgoing := .failed }
  | .again outgoingSession => { s with outgoingSession, outgoing := .reading .pending }

/-! ### The strand -/

/-- A successful read delivers between one byte and the whole buffer, a failed one nothing. -/
def ReadResult (ec : ErrorCode) (data : Bytes) : Prop :=
  if ec = .success then 1 ≤ data.length ∧ data.length ≤ bufferSize else data = []

instance (ec : ErrorCode) (data : Bytes) : Decidable (ReadResult ec data) := by
  unfold ReadResult; infer_instance

def step (s : HttpSession) : Event → Option HttpSession
  | .start => if s.header = .constructed then some { s with header := .spawned } else none
  | .stop => some { s with stops := s.stops + 1 }
  | .headerRead ec raw =>
    if s.header = .reading .pending ∧ (ec = .success → IsHeaderBlock raw) then
      some { s with header := .reading (.ready (ec, raw)) }
    else none
  | .timerExpires => if s.timer = .armed then some { s with timer := .queued .success } else none
  | .timeoutWritten ec =>
    if s.timeout = .writing .pending then some { s with timeout := .writing (.ready ec) } else none
  | .replyWritten ec =>
    match s.reply with
    | .writing .pending => some { s with reply := .writing (.ready ec) }
    | _ => none
  | .relayWritten ec =>
    if s.outgoing = .relaying .pending then some { s with outgoing := .relaying (.ready ec) } else none
  | .upstreamDone step ec =>
    if s.outgoing = .waiting step .pending then some { s with outgoing := .waiting step (.ready ec) }
    else none
  | .upstreamRead ec data =>
    if s.outgoing = .reading .pending ∧ ReadResult ec data then
      some { s with
        outgoing := .reading (.ready (ec, data.length))
        outgoingSession := s.outgoingSession.fill data }
    else none
  | .runStart tlsContextOk => if s.header = .spawned then some (s.startImpl tlsContextOk) else none
  | .runHeader allowed =>
    match s.header with
    | .reading (.ready (ec, raw)) => some (s.headerResumed ec raw allowed)
    | _ => none
  | .runTimer =>
    match s.timer with
    | .queued ec => some (s.onTimer ec)
    | _ => none
  | .runTimeout =>
    match s.timeout with
    | .spawned ec => some (s.onHeaderTimeout ec)
    | .writing (.ready _) => some { s.shutdown with timeout := .done }
    | _ => none
  | .runReply =>
    match s.reply with
    | .disallow => some s.onRequestDisallow
    | .health request => some (s.onHealthRequest request)
    | .writing (.ready _) => some { s with reply := .done }
    | _ => none
  | .runStop =>
    match s.stops with
    | n + 1 => some { s with stops := n }.stopHandler
    | 0 => none
  | .startOutgoing sslOk =>
    if s.outgoing = .spawned then some (s.outgoingStartImpl sslOk) else none
  | .runOutgoing =>
    match s.outgoing with
    | .waiting step (.ready ec) => some (s.upstreamResumed step ec)
    | .reading (.ready (ec, n)) => some (s.readResumed ec n)
    | .relaying (.ready _) => some { s.shutdown with outgoing := .done }
    | _ => none

end HttpSession

end MarketBridge
