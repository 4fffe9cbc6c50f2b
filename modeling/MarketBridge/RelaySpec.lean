import MarketBridge.SessionSpec

/-!
# The relayed response

`read_response` gathers what the upstream reads deliver and relays it when the stream ends. `Relay` says
where the bytes are at each point of the outgoing session's coroutine.
-/

namespace MarketBridge.HttpSession

open Lts (Run Det)

variable {s t : HttpSession} {e : Event} {as : List Event} {upstreamInfo : UpstreamInfo} {memory : Bytes}

/-- The result of an upstream read. -/
def Event.read? : Event → Option (ErrorCode × Bytes)
  | .upstreamRead ec data => some (ec, data)
  | _ => none

/-- The results of the upstream reads of a run. -/
def reads (as : List Event) : List (ErrorCode × Bytes) := as.filterMap Event.read?

/-- Reads that deliver `chunks`. -/
def delivered (chunks : List Bytes) : List (ErrorCode × Bytes) := chunks.map (.success, ·)

/-- The texts that `on_outgoing_session_completed` has handed to the client stream. -/
def relayed (handed : List (ResponseKind × Bytes)) : List Bytes :=
  (handed.filter (·.1 = .relay)).map (·.2)

theorem relayed_append_relay (l : List (ResponseKind × Bytes)) (response : Bytes) :
    relayed (l ++ [(.relay, response)]) = relayed l ++ [response] := by
  simp [relayed]

theorem relayed_append_of_ne (l : List (ResponseKind × Bytes)) {kind : ResponseKind} {response : Bytes}
    (h : kind ≠ .relay) : relayed (l ++ [(kind, response)]) = relayed l := by
  simp [relayed, h]

theorem reads_append_of_none (h : e.read? = none) : reads (as ++ [e]) = reads as := by simp [reads, h]

theorem delivered_append (chunks : List Bytes) (data : Bytes) :
    delivered chunks ++ [(.success, data)] = delivered (chunks ++ [data]) := by
  simp [delivered]

/-- An end of the reads is not a chunk. -/
theorem delivered_ne {chunks chunks' : List Bytes} {ec : ErrorCode} {data : Bytes} (he : ec ≠ .success) :
    delivered chunks ≠ delivered chunks' ++ [(ec, data)] := by
  intro h
  have hm : (ec, data) ∈ delivered chunks := by simp [h]
  obtain ⟨c, -, hc⟩ := List.mem_map.1 hm
  exact he (Prod.mk.inj hc).1.symm

theorem delivered_append_inj {chunks chunks' : List Bytes} {r r' : ErrorCode × Bytes}
    (h : delivered chunks ++ [r] = delivered chunks' ++ [r']) : chunks = chunks' ∧ r = r' := by
  obtain ⟨h₁, h₂⟩ := List.append_inj' h rfl
  exact ⟨List.map_injective_iff.2 (fun _ _ h => (Prod.mk.inj h).2) h₁, by simpa using h₂⟩

/-- `Relay task session reads relayed`: what has been read, gathered and relayed when the outgoing session
stands at `task`. -/
inductive Relay : OutgoingTask → OutgoingSession → List (ErrorCode × Bytes) → List Bytes → Prop
  | none {o : OutgoingSession} : Relay .none o [] []
  | spawned {o : OutgoingSession} (ho : o.response = []) : Relay .spawned o [] []
  | waiting {o : OutgoingSession} {step : UpstreamOp} {op : Await ErrorCode} (ho : o.response = []) :
      Relay (.waiting step op) o [] []
  | reading {o : OutgoingSession} {chunks : List Bytes} (ho : o.response = chunks.flatten) :
      Relay (.reading .pending) o (delivered chunks) []
  | read {o : OutgoingSession} {chunks : List Bytes} {ec : ErrorCode} {data : Bytes}
      (ho : o.response = chunks.flatten) (hb : o.buffer.take data.length = data) (hd : ReadResult ec data) :
      Relay (.reading (.ready (ec, data.length))) o (delivered chunks ++ [(ec, data)]) []
  | relaying {o : OutgoingSession} {chunks : List Bytes} {op : Await ErrorCode} :
      Relay (.relaying op) o (delivered chunks ++ [(.eof, [])]) [chunks.flatten]
  | done {o : OutgoingSession} {chunks : List Bytes} :
      Relay .done o (delivered chunks ++ [(.eof, [])]) [chunks.flatten]
  | failed {o : OutgoingSession} {rs : List (ErrorCode × Bytes)}
      (h : ∀ chunks, rs ≠ delivered chunks ++ [(.eof, [])]) : Relay .failed o rs []

theorem Relay.close {o : OutgoingSession} {task : OutgoingTask} {rs : List (ErrorCode × Bytes)}
    {out : List Bytes} (h : Relay task o rs out) : Relay task.close o rs out := by
  cases h <;> constructor <;> assumption

/-! ### Where the relay stands -/

section
variable {o : OutgoingSession} {rs : List (ErrorCode × Bytes)} {out : List Bytes}

theorem Relay.of_none (h : Relay .none o rs out) : rs = [] ∧ out = [] := by
  cases h; exact ⟨rfl, rfl⟩

theorem Relay.of_spawned (h : Relay .spawned o rs out) : rs = [] ∧ out = [] ∧ o.response = [] := by
  cases h with | spawned ho => exact ⟨rfl, rfl, ho⟩

theorem Relay.of_waiting {step : UpstreamOp} {op : Await ErrorCode} (h : Relay (.waiting step op) o rs out) :
    rs = [] ∧ out = [] ∧ o.response = [] := by
  cases h with | waiting ho => exact ⟨rfl, rfl, ho⟩

theorem Relay.of_reading (h : Relay (.reading .pending) o rs out) :
    ∃ chunks, rs = delivered chunks ∧ out = [] ∧ o.response = chunks.flatten := by
  cases h with | reading ho => exact ⟨_, rfl, rfl, ho⟩

theorem Relay.of_read {ec : ErrorCode} {n : Nat} (h : Relay (.reading (.ready (ec, n))) o rs out) :
    ∃ chunks data, rs = delivered chunks ++ [(ec, data)] ∧ out = [] ∧ o.response = chunks.flatten ∧
      o.buffer.take n = data ∧ ReadResult ec data := by
  cases h with | read ho hb hd => exact ⟨_, _, rfl, rfl, ho, hb, hd⟩

theorem Relay.of_relaying {op : Await ErrorCode} (h : Relay (.relaying op) o rs out) :
    ∃ chunks, rs = delivered chunks ++ [(.eof, [])] ∧ out = [chunks.flatten] := by
  cases h; exact ⟨_, rfl, rfl⟩

theorem Relay.of_done (h : Relay .done o rs out) :
    ∃ chunks, rs = delivered chunks ++ [(.eof, [])] ∧ out = [chunks.flatten] := by
  cases h; exact ⟨_, rfl, rfl⟩

theorem Relay.failed_nil : Relay .failed o [] [] := .failed (by simp)

theorem Relay.failed_read {chunks : List Bytes} {ec : ErrorCode} {data : Bytes} (he : ec ≠ .eof) :
    Relay .failed o (delivered chunks ++ [(ec, data)]) [] :=
  .failed fun _ h => he (Prod.mk.inj (delivered_append_inj h).2).1

/-- When the reads have ended and the end has been handled, a plain EOF has relayed the chunks in order and
once, another error nothing. -/
theorem Relay.of_end {task : OutgoingTask} {chunks : List Bytes} {ec : ErrorCode}
    (h : Relay task o (delivered chunks ++ [(ec, [])]) out) (he : ec ≠ .success)
    (hd : ∀ r, task ≠ .reading (.ready r)) : out = if ec = .eof then [chunks.flatten] else [] := by
  generalize hrs : delivered chunks ++ [(ec, [])] = rs at h
  cases h with
  | none | spawned | waiting => simp at hrs
  | reading => exact absurd hrs.symm (delivered_ne he)
  | read => exact absurd rfl (hd _)
  | relaying | done =>
    obtain ⟨rfl, hr⟩ := delivered_append_inj hrs
    rw [if_pos (Prod.mk.inj hr).1]
  | failed h =>
    rw [if_neg]
    rintro rfl
    exact h chunks hrs.symm

end

theorem fill_buffer_take (o : OutgoingSession) (data : Bytes) :
    (o.fill data).buffer.take data.length = data := by
  simp [OutgoingSession.fill]

def Relays (as : List Event) (s : HttpSession) : Prop :=
  Relay s.outgoing s.outgoingSession (reads as) (relayed s.handed)

theorem Relays.at {task : OutgoingTask} (hi : Relays as s) (h : s.outgoing = task) :
    Relay task s.outgoingSession (reads as) (relayed s.handed) :=
  h ▸ show Relay s.outgoing s.outgoingSession (reads as) (relayed s.handed) from hi

theorem Relays.stopHandler (hi : Relays as s) : Relays as s.stopHandler := by
  rcases stopHandler_cases s with ⟨-, h⟩ | ⟨-, h⟩ <;> rw [h]
  · exact hi
  · exact Relay.close hi

theorem Relays.upstreamRead {ec : ErrorCode} {data : Bytes} (hi : Relays as s)
    (h : s.outgoing = .reading .pending) (hd : ReadResult ec data) :
    Relay (.reading (.ready (ec, data.length))) (s.outgoingSession.fill data)
      (reads (as ++ [.upstreamRead ec data])) (relayed s.handed) := by
  obtain ⟨chunks, hrs, hout, ho⟩ := (hi.at h).of_reading
  have hr : reads (as ++ [.upstreamRead ec data]) = reads as ++ [(ec, data)] := by
    simp [reads, Event.read?]
  rw [hr, hrs, hout]
  exact .read ho (fill_buffer_take _ _) hd

theorem Relays.readChunk {n : Nat} (hi : Relays as s) (h : s.outgoing = .reading (.ready (.success, n))) :
    Relay (.reading .pending)
      { s.outgoingSession with
        response := s.outgoingSession.response ++ s.outgoingSession.buffer.take n }
      (reads as) (relayed s.handed) := by
  obtain ⟨chunks, data, hrs, hout, ho, hb, -⟩ := (hi.at h).of_read
  rw [hrs, hout, delivered_append]
  exact .reading (by simp [ho, hb])

theorem Relays.silent (he : e.read? = none)
    (ht : Relay t.outgoing t.outgoingSession (reads as) (relayed t.handed)) : Relays (as ++ [e]) t := by
  rw [Relays, reads_append_of_none he]; exact ht

theorem Relays.step (hi : Relays as s) (hx : s.Exclusive) (h : Step s e t) : Relays (as ++ [e]) t := by
  cases h with
  | upstreamRead h hd => exact hi.upstreamRead h hd
  | start | stop | headerRead | timerExpires | timeoutWritten | replyWritten | startFailed | obtainHeader
  | headerFailed | headerDropped | disallow | health | timerCancelled | timerFired | timeoutCancelled
  | timeoutLate | replyDone => exact .silent rfl hi
  | timeoutReply | replyDisallow | replyHealth =>
    exact .silent rfl (by simpa [respond, requestStop, relayed_append_of_ne] using hi.at rfl)
  | timeoutFailed => exact .silent rfl hi.stopHandler
  | timeoutDone => exact .silent rfl (Relay.close hi)
  | runStop => exact .silent rfl (Relays.stopHandler hi)
  | forward h =>
    -- the header task is not over, so there has been no outgoing session
    have ho := hx.outgoing_eq_none (by simp [h])
    obtain ⟨hrs, hout⟩ := (hi.at ho).of_none
    exact .silent rfl (hrs ▸ hout ▸ .spawned rfl)
  | resolve h =>
    obtain ⟨hrs, hout, hr⟩ := (hi.at h).of_spawned
    exact .silent rfl (hrs ▸ hout ▸ .waiting hr)
  | sslFailed h =>
    obtain ⟨hrs, hout, -⟩ := (hi.at h).of_spawned
    exact .silent rfl (hrs ▸ hout ▸ .failed_nil)
  | upstreamDone h | connect h | onConnect h | sendRequest h =>
    obtain ⟨hrs, hout, hr⟩ := (hi.at h).of_waiting
    exact .silent rfl (hrs ▸ hout ▸ .waiting hr)
  | upstreamFailed h =>
    obtain ⟨hrs, hout, -⟩ := (hi.at h).of_waiting
    exact .silent rfl (hrs ▸ hout ▸ .failed_nil)
  | readResponse h =>
    obtain ⟨hrs, hout, hr⟩ := (hi.at h).of_waiting
    exact .silent rfl (hrs ▸ hout ▸ (.reading hr : Relay _ _ (delivered []) _))
  | readFailed h he he' =>
    obtain ⟨chunks, data, hrs, hout, -⟩ := (hi.at h).of_read
    exact .silent rfl (hrs ▸ hout ▸ .failed_read he')
  | readChunk h => exact .silent rfl (hi.readChunk h)
  | relay h =>
    obtain ⟨chunks, data, hrs, hout, ho, -, hd⟩ := (hi.at h).of_read
    obtain rfl : data = [] := by simpa [ReadResult] using hd
    refine .silent rfl ?_
    simp only [respond, relayed_append_relay, hrs, hout, ho]
    exact .relaying
  | relayWritten h =>
    obtain ⟨chunks, hrs, hout⟩ := (hi.at h).of_relaying
    exact .silent rfl (hrs ▸ hout ▸ .relaying)
  | relayDone h =>
    obtain ⟨chunks, hrs, hout⟩ := (hi.at h).of_relaying
    exact .silent rfl (by rw [hrs]; exact hout ▸ .done)

theorem Relays.new : Relays [] (new upstreamInfo memory) := Relay.none

theorem relays_of_run (h : Run (Det step) (new upstreamInfo memory) as s) : s.Exclusive ∧ Relays as s := by
  refine h.trace_invariant (I := fun as s => s.Exclusive ∧ Relays as s) ⟨.new, .new⟩ ?_
  rintro as s e t ⟨hx, hi⟩ hst
  have hst := step_cases hst
  exact ⟨hx.step hst, hi.step hx hst⟩

/-! ### All or nothing -/

/-- The response is relayed whole or not at all, and the chunks it came in do not matter. -/
theorem relay_all_or_nothing {chunks : List Bytes} {ec : ErrorCode}
    (h : Run (Det step) (new upstreamInfo memory) as s)
    (hr : reads as = delivered chunks ++ [(ec, [])]) (he : ec ≠ .success)
    (hd : ∀ r, s.outgoing ≠ .reading (.ready r)) :
    (ec = .eof → relayed s.handed = [chunks.flatten] ∧
      ∀ (as' : List Event) (s' : HttpSession) (upstreamInfo' : UpstreamInfo) (memory' : Bytes)
        (chunks' : List Bytes),
        Run (Det step) (new upstreamInfo' memory') as' s' → reads as' = delivered chunks' ++ [(.eof, [])] →
        (∀ r, s'.outgoing ≠ .reading (.ready r)) → chunks'.flatten = chunks.flatten →
        relayed s'.handed = relayed s.handed) ∧
    (ec ≠ .eof → relayed s.handed = []) := by
  have hend : relayed s.handed = if ec = .eof then [chunks.flatten] else [] :=
    Relay.of_end (hr ▸ (relays_of_run h).2.at rfl) he hd
  refine ⟨fun hf => ?_, fun hf => by rw [hend, if_neg hf]⟩
  rw [if_pos hf] at hend
  refine ⟨hend, fun as' s' _ _ chunks' h' hr' hd' hc => ?_⟩
  have hend' := Relay.of_end (hr' ▸ (relays_of_run h').2.at rfl) (by simp) hd'
  rw [hend, hend', if_pos rfl, hc]

/-! ### Every way of cutting the stream occurs -/

/-- The events that read `chunks` and then the end `ec`. -/
def readEvents (ec : ErrorCode) : List Bytes → List Event
  | [] => [.upstreamRead ec [], .runOutgoing]
  | chunk :: chunks => .upstreamRead .success chunk :: .runOutgoing :: readEvents ec chunks

theorem step_upstreamRead {ec : ErrorCode} {data : Bytes} (h : s.outgoing = .reading .pending)
    (hd : ReadResult ec data) :
    step s (.upstreamRead ec data) = some
      { s with
        outgoing := .reading (.ready (ec, data.length))
        outgoingSession := s.outgoingSession.fill data } := by
  simp [step, h, hd]

theorem readResumed_of_end {ec : ErrorCode} (he : ec ≠ .success) (n : Nat) (r : ErrorCode × Nat) :
    (s.readResumed ec n).outgoing ≠ .reading (.ready r) := by
  by_cases hf : ec = .eof <;>
    simp [readResumed, OutgoingSession.readResponse, onOutgoingSessionCompleted, hf, he]

/-- A session that waits for its upstream can be given any chunks and any end. -/
theorem run_readEvents {ec : ErrorCode} (he : ec ≠ .success) {chunks : List Bytes}
    (hc : ∀ chunk ∈ chunks, 1 ≤ chunk.length ∧ chunk.length ≤ bufferSize)
    (h : s.outgoing = .reading .pending) :
    ∃ t, Run (Det step) s (readEvents ec chunks) t ∧ ∀ r, t.outgoing ≠ .reading (.ready r) := by
  induction chunks generalizing s with
  | nil =>
    exact ⟨_, .cons (step_upstreamRead h (by simp [ReadResult, he])) (.single rfl), readResumed_of_end he 0⟩
  | cons chunk chunks ih =>
    have hd : ReadResult .success chunk := by simpa [ReadResult] using hc chunk List.mem_cons_self
    obtain ⟨t, hr, ht⟩ := ih (fun c hm => hc c (List.mem_cons_of_mem _ hm))
      (s := { s with
        outgoing := .reading .pending
        outgoingSession :=
          { s.outgoingSession.fill chunk with
            response :=
              s.outgoingSession.response ++ (s.outgoingSession.fill chunk).buffer.take chunk.length } })
      rfl
    exact ⟨t, .cons (step_upstreamRead h hd) (.cons rfl hr), ht⟩

def timeRequest : Bytes := lit "GET /api/v3/time HTTP/1.1\r\nHost: localhost\r\n\r\n"

def upstreamReads : List Event :=
  headerArrives timeRequest ++
    [.runHeader true, .startOutgoing true, .upstreamDone .resolve .success, .runOutgoing,
     .upstreamDone .connect .success, .runOutgoing, .upstreamDone .handshake .success, .runOutgoing,
     .upstreamDone .write .success, .runOutgoing]

def twoChunks : List Bytes := [[104, 0], [105]]

theorem relay_all_or_nothing_two_chunks : ∃ s,
    Run (Det step) (new exampleUpstream []) (upstreamReads ++ readEvents .eof twoChunks) s ∧
    relayed s.handed = [[104, 0, 105]] := by
  have h : (upstreamReads.foldlM step (new exampleUpstream [])).map (·.outgoing) =
      some (.reading .pending) := by decide +kernel
  obtain ⟨s, hs, ho⟩ := Option.map_eq_some_iff.1 h
  obtain ⟨t, hr, ht⟩ := run_readEvents (by decide : ErrorCode.eof ≠ .success)
    (by decide : ∀ chunk ∈ twoChunks, 1 ≤ chunk.length ∧ chunk.length ≤ bufferSize) ho
  have hrun := (Lts.run_det_iff.2 hs).append hr
  have hreads : reads (upstreamReads ++ readEvents .eof twoChunks) =
      delivered twoChunks ++ [(.eof, [])] := rfl
  exact ⟨t, hrun, ((relay_all_or_nothing hrun hreads (by decide) ht).1 rfl).1⟩

end MarketBridge.HttpSession
