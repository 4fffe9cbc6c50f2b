import MarketBridge.HttpSession
import MarketBridge.Lib.Lts

/-!
# What one step of a session can do

`Step` lists the steps of the strand with their conditions and effects, one constructor for each branch of
each handler; `step_cases` says that `step` does nothing else. Every invariant of the session is a case
analysis on `Step`.
-/

namespace MarketBridge.HttpSession

variable {s t : HttpSession} {e : Event}

inductive Step (s : HttpSession) : Event → HttpSession → Prop
  | start (h : s.header = .constructed) : Step s .start { s with header := .spawned }
  | stop : Step s .stop { s with stops := s.stops + 1 }
  -- completions
  | headerRead {ec : ErrorCode} {raw : Bytes} (h : s.header = .reading .pending)
      (hr : ec = .success → IsHeaderBlock raw) :
      Step s (.headerRead ec raw) { s with header := .reading (.ready (ec, raw)) }
  | timerExpires (h : s.timer = .armed) : Step s .timerExpires { s with timer := .queued .success }
  | timeoutWritten {ec : ErrorCode} (h : s.timeout = .writing .pending) :
      Step s (.timeoutWritten ec) { s with timeout := .writing (.ready ec) }
  | replyWritten {ec : ErrorCode} (h : s.reply = .writing .pending) :
      Step s (.replyWritten ec) { s with reply := .writing (.ready ec) }
  | relayWritten {ec : ErrorCode} (h : s.outgoing = .relaying .pending) :
      Step s (.relayWritten ec) { s with outgoing := .relaying (.ready ec) }
  | upstreamDone {step : UpstreamOp} {ec : ErrorCode} (h : s.outgoing = .waiting step .pending) :
      Step s (.upstreamDone step ec) { s with outgoing := .waiting step (.ready ec) }
  | upstreamRead {ec : ErrorCode} {data : Bytes} (h : s.outgoing = .reading .pending)
      (hd : ReadResult ec data) :
      Step s (.upstreamRead ec data)
        { s with
          outgoing := .reading (.ready (ec, data.length))
          outgoingSession := s.outgoingSession.fill data }
  -- the header
  | startFailed (h : s.header = .spawned) : Step s (.runStart false) { s with header := .done }
  | obtainHeader (h : s.header = .spawned) : Step s (.runStart true)
        { s with timer := .armed, header := .reading (.start s.isOpen (.badDescriptor, [])) }
  | headerFailed {ec : ErrorCode} {raw : Bytes} {allowed : Bool}
      (h : s.header = .reading (.ready (ec, raw))) (he : ec ≠ .success) :
      Step s (.runHeader allowed) { s with header := .done }
  | headerDropped {raw : Bytes} {allowed : Bool} (h : s.header = .reading (.ready (.success, raw)))
      (hs : s.stopped = true) :
      Step s (.runHeader allowed) { s with header := .done, timer := s.timer.cancel }
  | disallow {raw : Bytes} (h : s.header = .reading (.ready (.success, raw))) (hs : s.stopped = false) :
      Step s (.runHeader false)
        { s with
          header := .done, timer := s.timer.cancel, rawRequest := raw, allowCalls := s.allowCalls + 1
          reply := .disallow }
  | health {raw : Bytes} (h : s.header = .reading (.ready (.success, raw))) (hs : s.stopped = false)
      (ht : (parseRequest raw).target = lit "/health") :
      Step s (.runHeader true)
        { s with
          header := .done, timer := s.timer.cancel, rawRequest := raw, allowCalls := s.allowCalls + 1
          reply := .health (parseRequest raw) }
  | forward {raw : Bytes} (h : s.header = .reading (.ready (.success, raw))) (hs : s.stopped = false)
      (ht : (parseRequest raw).target ≠ lit "/health") :
      Step s (.runHeader true)
        { s with
          header := .done, timer := s.timer.cancel, rawRequest := raw, allowCalls := s.allowCalls + 1
          request := parseRequest raw, outgoing := .spawned, outgoingSession := { buffer := s.memory } }
  -- the header timeout
  | timerCancelled (h : s.timer = .queued .operationAborted) : Step s .runTimer { s with timer := .done }
  | timerFired {ec : ErrorCode} (h : s.timer = .queued ec) (he : ec ≠ .operationAborted) :
      Step s .runTimer { s with timer := .done, timeout := .spawned ec }
  | timeoutCancelled (h : s.timeout = .spawned .operationAborted) :
      Step s .runTimeout { s with timeout := .done }
  | timeoutFailed {ec : ErrorCode} (h : s.timeout = .spawned ec) (he : ec ≠ .success) :
      Step s .runTimeout { s.stopHandler with timeout := .done }
  | timeoutLate (h : s.timeout = .spawned .success) (hs : s.stopped = true) :
      Step s .runTimeout { s.requestStop .headerTimeout with timeout := .done }
  | timeoutReply (h : s.timeout = .spawned .success) (hs : s.stopped = false) :
      Step s .runTimeout
        { (s.requestStop .headerTimeout).respond .timeout timeoutResponse with
          timeout := .writing s.clientWrite }
  | timeoutDone {ec : ErrorCode} (h : s.timeout = .writing (.ready ec)) :
      Step s .runTimeout { s.shutdown with timeout := .done }
  -- the replies
  | replyDisallow (h : s.reply = .disallow) :
      Step s .runReply { s.respond .disallow disallowResponse with reply := .writing s.clientWrite }
  | replyHealth {request : HttpRequest} (h : s.reply = .health request) :
      Step s .runReply { s.respond .health healthResponse with reply := .writing s.clientWrite }
  | replyDone {ec : ErrorCode} (h : s.reply = .writing (.ready ec)) :
      Step s .runReply { s with reply := .done }
  | runStop {n : Nat} (h : s.stops = n + 1) : Step s .runStop { s with stops := n }.stopHandler
  -- the outgoing session
  | sslFailed (h : s.outgoing = .spawned) : Step s (.startOutgoing false) { s with outgoing := .failed }
  | resolve (h : s.outgoing = .spawned) :
      Step s (.startOutgoing true) { s with outgoing := .waiting .resolve .pending }
  | upstreamFailed {step : UpstreamOp} {ec : ErrorCode}
      (h : s.outgoing = .waiting step (.ready ec)) (he : ec ≠ .success) :
      Step s .runOutgoing { s with outgoing := .failed }
  | connect (h : s.outgoing = .waiting .resolve (.ready .success)) :
      Step s .runOutgoing { s with outgoing := .waiting .connect .pending }
  | onConnect (h : s.outgoing = .waiting .connect (.ready .success)) :
      Step s .runOutgoing { s with outgoing := .waiting .handshake .pending }
  | sendRequest (h : s.outgoing = .waiting .handshake (.ready .success)) :
      Step s .runOutgoing
        { s with
          outgoing := .waiting .write .pending
          outgoingSession :=
            { s.outgoingSession with httpRequest := generateRequest s.request s.upstreamInfo.host } }
  | readResponse (h : s.outgoing = .waiting .write (.ready .success)) :
      Step s .runOutgoing { s with outgoing := .reading .pending }
  | readFailed {ec : ErrorCode} {n : Nat} (h : s.outgoing = .reading (.ready (ec, n)))
      (he : ec ≠ .success) (he' : ec ≠ .eof) :
      Step s .runOutgoing { s with outgoing := .failed }
  | readChunk {n : Nat} (h : s.outgoing = .reading (.ready (.success, n))) :
      Step s .runOutgoing
        { s with
          outgoing := .reading .pending
          outgoingSession :=
            { s.outgoingSession with
              response := s.outgoingSession.response ++ s.outgoingSession.buffer.take n } }
  | relay {n : Nat} (h : s.outgoing = .reading (.ready (.eof, n))) :
      Step s .runOutgoing
        { s.respond .relay s.outgoingSession.response with outgoing := .relaying s.clientWrite }
  | relayDone {ec : ErrorCode} (h : s.outgoing = .relaying (.ready ec)) :
      Step s .runOutgoing { s.shutdown with outgoing := .done }

/-! ### The handlers, branch by branch -/

theorem headerResumed_step {ec : ErrorCode} {raw : Bytes} (allowed : Bool)
    (h : s.header = .reading (.ready (ec, raw))) :
    Step s (.runHeader allowed) (s.headerResumed ec raw allowed) := by
  by_cases he : ec = .success
  · subst he
    cases hs : s.stopped with
    | true =>
      have hd : Step s (.runHeader allowed) _ := .headerDropped h hs
      simpa [headerResumed, onHeaderObtained, hs] using hd
    | false =>
      cases allowed with
      | false =>
        simpa [headerResumed, onHeaderObtained, onRequest, MarketBridge.onRequest, hs] using
          Step.disallow h hs
      | true =>
        by_cases ht : (parseRequest raw).target = lit "/health"
        · simpa [headerResumed, onHeaderObtained, onRequest, MarketBridge.onRequest, hs, ht] using
            Step.health h hs ht
        · simpa [headerResumed, onHeaderObtained, onRequest, MarketBridge.onRequest, hs, ht] using
            Step.forward h hs ht
  · simpa [headerResumed, he] using (Step.headerFailed h he : Step s (.runHeader allowed) _)

theorem onTimer_step {ec : ErrorCode} (h : s.timer = .queued ec) : Step s .runTimer (s.onTimer ec) := by
  by_cases he : ec = .operationAborted
  · subst he
    simpa [onTimer] using Step.timerCancelled h
  · simpa [onTimer, he] using Step.timerFired h he

theorem onHeaderTimeout_step {ec : ErrorCode} (h : s.timeout = .spawned ec) :
    Step s .runTimeout (s.onHeaderTimeout ec) := by
  by_cases ha : ec = .operationAborted
  · subst ha
    simpa [onHeaderTimeout] using Step.timeoutCancelled h
  by_cases he : ec = .success
  · subst he
    cases hs : s.stopped with
    | true => simpa [onHeaderTimeout, hs] using Step.timeoutLate h hs
    | false =>
      simpa [onHeaderTimeout, hs, clientWrite, respond, requestStop] using Step.timeoutReply h hs
  · simpa [onHeaderTimeout, ha, he] using Step.timeoutFailed h he

theorem upstreamResumed_step {step : UpstreamOp} {ec : ErrorCode}
    (h : s.outgoing = .waiting step (.ready ec)) :
    Step s .runOutgoing (s.upstreamResumed step ec) := by
  by_cases he : ec = .success
  · subst he
    cases step with
    | resolve => exact .connect h
    | connect => exact .onConnect h
    | handshake => exact .sendRequest h
    | write => exact .readResponse h
  · simpa [upstreamResumed, he] using Step.upstreamFailed h he

theorem readResumed_step {ec : ErrorCode} {n : Nat}
    (h : s.outgoing = .reading (.ready (ec, n))) : Step s .runOutgoing (s.readResumed ec n) := by
  by_cases hf : ec = .eof
  · subst hf
    simpa [readResumed, OutgoingSession.readResponse, onOutgoingSessionCompleted, clientWrite, respond]
      using Step.relay h
  by_cases he : ec = .success
  · subst he
    simpa [readResumed, OutgoingSession.readResponse] using Step.readChunk h
  · simpa [readResumed, OutgoingSession.readResponse, hf, he] using
      Step.readFailed h he hf

theorem step_cases (h : step s e = some t) : Step s e t := by
  cases e with
  | start =>
    obtain ⟨hh, rfl⟩ : _ ∧ _ = t := by simpa [step] using h
    exact .start hh
  | stop =>
    obtain rfl : _ = t := by simpa [step] using h
    exact .stop
  | headerRead ec raw =>
    obtain ⟨⟨hh, hr⟩, rfl⟩ : (_ ∧ _) ∧ _ = t := by
      simpa only [step, Option.ite_none_right_eq_some, Option.some.injEq] using h
    exact .headerRead hh hr
  | timerExpires =>
    obtain ⟨hh, rfl⟩ : _ ∧ _ = t := by simpa [step] using h
    exact .timerExpires hh
  | timeoutWritten ec =>
    obtain ⟨hh, rfl⟩ : _ ∧ _ = t := by simpa [step] using h
    exact .timeoutWritten hh
  | replyWritten ec =>
    simp only [step] at h
    split at h
    · obtain rfl : _ = t := by simpa using h
      exact .replyWritten ‹_›
    · cases h
  | relayWritten ec =>
    obtain ⟨hh, rfl⟩ : _ ∧ _ = t := by simpa [step] using h
    exact .relayWritten hh
  | upstreamDone step ec =>
    obtain ⟨hh, rfl⟩ : _ ∧ _ = t := by simpa [HttpSession.step] using h
    exact .upstreamDone hh
  | upstreamRead ec data =>
    obtain ⟨⟨hh, hd⟩, rfl⟩ : (_ ∧ _) ∧ _ = t := by
      simpa only [step, Option.ite_none_right_eq_some, Option.some.injEq] using h
    exact .upstreamRead hh hd
  | runStart ok =>
    obtain ⟨hh, rfl⟩ : _ ∧ _ = t := by simpa [step] using h
    cases ok with
    | false => exact .startFailed hh
    | true => exact .obtainHeader hh
  | runHeader allowed =>
    simp only [step] at h
    split at h
    · obtain rfl : _ = t := by simpa using h
      exact headerResumed_step allowed ‹_›
    · cases h
  | runTimer =>
    simp only [step] at h
    split at h
    · obtain rfl : _ = t := by simpa using h
      exact onTimer_step ‹_›
    · cases h
  | runTimeout =>
    simp only [step] at h
    split at h
    · obtain rfl : _ = t := by simpa using h
      exact onHeaderTimeout_step ‹_›
    · obtain rfl : _ = t := by simpa using h
      exact .timeoutDone ‹_›
    · cases h
  | runReply =>
    simp only [step] at h
    split at h
    · obtain rfl : _ = t := by simpa using h
      exact .replyDisallow ‹_›
    · obtain rfl : _ = t := by simpa using h
      exact .replyHealth ‹_›
    · obtain rfl : _ = t := by simpa using h
      exact .replyDone ‹_›
    · cases h
  | runStop =>
    simp only [step] at h
    split at h
    · obtain rfl : _ = t := by simpa using h
      exact .runStop ‹_›
    · cases h
  | startOutgoing ok =>
    obtain ⟨hh, rfl⟩ : _ ∧ _ = t := by simpa [step] using h
    cases ok with
    | false => exact .sslFailed hh
    | true => exact .resolve hh
  | runOutgoing =>
    simp only [step] at h
    split at h
    · obtain rfl : _ = t := by simpa using h
      exact upstreamResumed_step ‹_›
    · obtain rfl : _ = t := by simpa using h
      exact readResumed_step ‹_›
    · obtain rfl : _ = t := by simpa using h
      exact .relayDone ‹_›
    · cases h

end MarketBridge.HttpSession
