import MarketBridge.RelaySpec

/-!
# Where the bytes of a session come from

The upstream request is `generate_request` of the one header block that was read; a response is a local text
or the whole of what the upstream server has sent (`Sourced`). So a client gets a response with something in
it exactly when no upstream step fails and the upstream server does not end its stream before the first byte
(`handed_iff`). Until `response_` is assigned anew, a write in flight reads the text it was started with
(`WritesIntact`).
-/

namespace MarketBridge.HttpSession

open Lts (Run Det)

variable {s t : HttpSession} {e : Event} {as : List Event} {upstreamInfo : UpstreamInfo} {memory : Bytes}

/-! ### The header block -/

/-- The block that a completed read has delivered. -/
def Event.block? : Event → Option Bytes
  | .headerRead ec raw => if ec = .success then some raw else none
  | _ => none

def blocks (as : List Event) : List Bytes := as.filterMap Event.block?

/-- The header task and the blocks delivered to it. -/
inductive Heard : HeaderTask → List Bytes → Prop
  | constructed : Heard .constructed []
  | spawned : Heard .spawned []
  | reading : Heard (.reading .pending) []
  | read {raw : Bytes} (h : IsHeaderBlock raw) : Heard (.reading (.ready (.success, raw))) [raw]
  | failed {ec : ErrorCode} {raw : Bytes} (h : ec ≠ .success) : Heard (.reading (.ready (ec, raw))) []
  | done {raws : List Bytes} : Heard .done raws

theorem Heard.close {task : HeaderTask} {raws : List Bytes} (h : Heard task raws) : Heard task.close raws := by
  cases h with
  | constructed => exact .constructed
  | spawned => exact .spawned
  | reading => exact .failed (by simp)
  | read h => exact .read h
  | failed h => exact .failed h
  | done => exact .done

theorem blocks_silent (as : List Event) (he : e.block? = none) : blocks (as ++ [e]) = blocks as := by
  simp [blocks, he]

/-- The block that the request was parsed from. -/
def Asked (as : List Event) (s : HttpSession) : Prop := ∃ raw, IsHeaderBlock raw ∧ blocks as = [raw] ∧
  s.request = parseRequest raw ∧ (parseRequest raw).target ≠ lit "/health"

/-! ### The texts of the responses -/

/-- How many responses other than the 408 the tasks have handed over. -/
def replies (s : HttpSession) : Nat :=
  (if s.reply.work = .answered then 1 else 0) + if s.outgoing.work = .answered then 1 else 0

/-- A response is a local text, or its text is a relayed one. -/
def Known (r : ResponseKind × Bytes) : Prop :=
  r = (.timeout, timeoutResponse) ∨ r = (.disallow, disallowResponse) ∨ r = (.health, healthResponse) ∨
    r.1 = .relay

structure Sourced (upstreamInfo : UpstreamInfo) (as : List Event) (s : HttpSession) : Prop where
  info : s.upstreamInfo = upstreamInfo
  heard : Heard s.header (blocks as)
  asked : s.outgoing ≠ .none → Asked as s
  sent : s.outgoingSession.httpRequest ≠ [] → s.outgoing ≠ .none ∧
    s.outgoingSession.httpRequest = generateRequest s.request upstreamInfo.host
  known : ∀ r ∈ s.handed, Known r
  once : s.handed.countP (fun r => r.1 ≠ .timeout) = s.replies

theorem Sourced.new : Sourced upstreamInfo [] (new upstreamInfo memory) :=
  ⟨rfl, .constructed, fun h => absurd rfl h, fun h => absurd rfl h, List.forall_mem_nil _, rfl⟩

theorem close_eq_none {o : OutgoingTask} : o.close = .none ↔ o = .none := by
  cases o <;> simp [OutgoingTask.close]

theorem answered_iff {o : OutgoingTask} : o.work = .answered ↔ (∃ op, o = .relaying op) ∨ o = .done := by
  rcases o with _ | _ | ⟨_, _ | _⟩ | (_ | _) | _ | _ | _ <;> simp [OutgoingTask.work] <;> split <;> simp

theorem replies_congr (hr : t.reply.work = .answered ↔ s.reply.work = .answered)
    (ho : t.outgoing.work = .answered ↔ s.outgoing.work = .answered) : t.replies = s.replies := by
  simp only [replies, hr, ho]

/-- Nothing that matters for the sources has changed but the header task. -/
theorem Sourced.congr (hi : Sourced upstreamInfo as s) (hinfo : t.upstreamInfo = s.upstreamInfo)
    (hh : Heard t.header (blocks as)) (ho : t.outgoing = .none ↔ s.outgoing = .none) (hq : t.request = s.request)
    (hs : t.outgoingSession.httpRequest = s.outgoingSession.httpRequest) (hk : t.handed = s.handed)
    (hr : t.replies = s.replies) : Sourced upstreamInfo as t where
  info := hinfo.trans hi.info
  heard := hh
  asked h := by
    obtain ⟨raw, hb, hl, he, ht⟩ := hi.asked fun hn => h (ho.2 hn)
    exact ⟨raw, hb, hl, hq.trans he, ht⟩
  sent h := by
    rw [hs] at h
    obtain ⟨hn, he⟩ := hi.sent h
    exact ⟨fun ht => hn (ho.1 ht), by rw [hs, hq, he]⟩
  known := hk ▸ hi.known
  once := by rw [hk, hr, hi.once]

theorem Sourced.shutdown (hi : Sourced upstreamInfo as s) : Sourced upstreamInfo as s.shutdown :=
  hi.congr rfl hi.heard.close close_eq_none rfl rfl rfl
    (replies_congr (by simp [HttpSession.shutdown]) (by simp [HttpSession.shutdown]))

theorem Sourced.stopHandler (hi : Sourced upstreamInfo as s) : Sourced upstreamInfo as s.stopHandler := by
  have hi' : Sourced upstreamInfo as (s.requestStop .stop) := hi.congr rfl hi.heard .rfl rfl rfl rfl rfl
  rcases stopHandler_cases s with ⟨-, h⟩ | ⟨-, h⟩ <;> rw [h]
  · exact hi'
  · exact hi'.shutdown

/-- An event that delivers no block. -/
theorem Sourced.silent (hi : Sourced upstreamInfo as t) (he : e.block? = none) :
    Sourced upstreamInfo (as ++ [e]) t := by
  have hb := blocks_silent as he
  refine ⟨hi.info, hb ▸ hi.heard, fun h => ?_, hi.sent, hi.known, hi.once⟩
  obtain ⟨raw, hr, hs, hq⟩ := hi.asked h
  exact ⟨raw, hr, hb ▸ hs, hq⟩

/-- One more response has been handed over. -/
theorem Sourced.respond {kind : ResponseKind} {response : Bytes} (hi : Sourced upstreamInfo as s)
    (hk : Known (kind, response)) (ht : t.handed = s.handed ++ [(kind, response)])
    (hinfo : t.upstreamInfo = s.upstreamInfo) (hh : t.header = s.header)
    (ho : t.outgoing = .none ↔ s.outgoing = .none) (hq : t.request = s.request)
    (hs : t.outgoingSession.httpRequest = s.outgoingSession.httpRequest)
    (hr : t.replies = s.replies + if kind = .timeout then 0 else 1) : Sourced upstreamInfo as t where
  info := hinfo.trans hi.info
  heard := hh ▸ hi.heard
  asked h := by
    obtain ⟨raw, hb, hl, he, ht⟩ := hi.asked fun hn => h (ho.2 hn)
    exact ⟨raw, hb, hl, hq.trans he, ht⟩
  sent h := by
    rw [hs] at h
    obtain ⟨hn, he⟩ := hi.sent h
    exact ⟨fun ht => hn (ho.1 ht), by rw [hs, hq, he]⟩
  known r hr := by
    rw [ht] at hr
    rcases List.mem_append.1 hr with hr | hr
    · exact hi.known r hr
    · exact List.mem_singleton.1 hr ▸ hk
  once := by
    rw [ht, List.countP_append, hi.once, hr]
    by_cases hkind : kind = .timeout <;> simp [hkind]

theorem Sourced.step (hi : Sourced upstreamInfo as s) (hx : s.Exclusive) (h : Step s e t) :
    Sourced upstreamInfo (as ++ [e]) t := by
  have hheard := hi.heard
  have hfresh : s.header ≠ .done → s.outgoing = .none ∧ s.reply.work = .none := fun hh =>
    ⟨hx.outgoing_eq_none hh, (hx.header.resolve_left hh).1⟩
  cases h with
  | start h =>
    rw [h] at hheard
    generalize hb : blocks as = raws at hheard
    cases hheard
    exact .silent (hi.congr rfl (hb ▸ .spawned) .rfl rfl rfl rfl rfl) rfl
  | @headerRead ec raw h hr =>
    rw [h] at hheard
    generalize hb : blocks as = raws at hheard
    cases hheard
    have hnone := (hfresh (by simp [h])).1
    by_cases he : ec = .success
    · subst he
      have hl : blocks (as ++ [.headerRead .success raw]) = [raw] := by
        rw [blocks, List.filterMap_append, ← blocks, hb]
        rfl
      exact ⟨hi.info, hl ▸ .read (hr rfl), fun ho => absurd hnone ho, hi.sent, hi.known, hi.once⟩
    · have hl : Event.block? (.headerRead ec raw) = none := if_neg he
      exact .silent (hi.congr rfl (hb ▸ .failed he) .rfl rfl rfl rfl rfl) hl
  | stop | timerExpires | timeoutWritten | timerCancelled | timerFired | timeoutCancelled | timeoutLate =>
    exact .silent (hi.congr rfl hi.heard .rfl rfl rfl rfl rfl) rfl
  | startFailed | headerFailed | headerDropped => exact .silent (hi.congr rfl .done .rfl rfl rfl rfl rfl) rfl
  | obtainHeader h =>
    rw [h] at hheard
    refine .silent (hi.congr rfl ?_ .rfl rfl rfl rfl rfl) rfl
    generalize blocks as = raws at hheard
    cases hheard
    show Heard (.reading (.start s.isOpen _)) []
    cases s.isOpen with
    | true => exact .reading
    | false => exact .failed (by simp [ErrorCode.badDescriptor])
  | disallow h | health h =>
    have hw := (hfresh (by simp [h])).2
    refine .silent (hi.congr rfl .done .rfl rfl rfl rfl ?_) rfl
    exact replies_congr (iff_of_false (by simp [ReplyTask.work]) (by simp [hw])) .rfl
  | @forward raw h hs ht =>
    rw [h] at hheard
    generalize hb : blocks as = raws at hheard
    obtain ⟨hnone, hw⟩ := hfresh (by simp [h])
    cases hheard with
    | read hr =>
      refine .silent ⟨hi.info, .done, fun _ => ⟨raw, hr, hb, rfl, ht⟩, fun h => absurd rfl h, hi.known, ?_⟩ rfl
      refine hi.once.trans ?_
      simp [replies, hnone, OutgoingTask.work]
    | failed he => exact absurd rfl he
  | timeoutFailed =>
    exact .silent (hi.stopHandler.congr rfl hi.stopHandler.heard .rfl rfl rfl rfl rfl) rfl
  | timeoutDone => exact .silent (hi.shutdown.congr rfl hi.shutdown.heard .rfl rfl rfl rfl rfl) rfl
  | @runStop n =>
    have hi' : Sourced upstreamInfo as { s with stops := n } := hi.congr rfl hi.heard .rfl rfl rfl rfl rfl
    exact .silent hi'.stopHandler rfl
  | timeoutReply => exact .silent (hi.respond (.inl rfl) rfl rfl rfl .rfl rfl rfl rfl) rfl
  | replyWritten h | replyDone h =>
    refine .silent (hi.congr rfl hi.heard .rfl rfl rfl rfl ?_) rfl
    exact replies_congr (by simp [h, ReplyTask.work]) .rfl
  | replyDisallow h =>
    refine .silent (hi.respond (.inr (.inl rfl)) rfl rfl rfl .rfl rfl rfl ?_) rfl
    simp [replies, h, ReplyTask.work, HttpSession.respond, Nat.add_comm]
  | replyHealth h =>
    refine .silent (hi.respond (.inr (.inr (.inl rfl))) rfl rfl rfl .rfl rfl rfl ?_) rfl
    simp [replies, h, ReplyTask.work, HttpSession.respond, Nat.add_comm]
  | relayWritten h | upstreamDone h | upstreamRead h | sslFailed h | resolve h | upstreamFailed h | connect h
  | onConnect h | readResponse h | readFailed h | readChunk h =>
    refine .silent (hi.congr rfl hi.heard (by simp [h]) rfl rfl rfl ?_) rfl
    exact replies_congr .rfl (by simp [h, answered_iff])
  | sendRequest h =>
    refine .silent ⟨hi.info, hi.heard, fun _ => hi.asked (by simp [h]), fun _ => ⟨by simp, ?_⟩, hi.known, ?_⟩ rfl
    · rw [hi.info]
    · refine hi.once.trans (Eq.symm ?_)
      exact replies_congr .rfl (by simp [h, answered_iff])
  | relay h =>
    refine .silent (hi.respond (.inr (.inr (.inr rfl))) rfl rfl rfl (by simp [h]) rfl rfl ?_) rfl
    have hw : s.outgoing.work ≠ .answered := by simp [h, answered_iff]
    rw [replies, replies, if_neg hw]
    rfl
  | @relayDone ec h =>
    have ho : s.shutdown.outgoing = .relaying (.ready ec) := by
      simp [HttpSession.shutdown, h, OutgoingTask.close, Await.close]
    refine .silent (hi.shutdown.congr rfl hi.shutdown.heard (by simp [ho]) rfl rfl rfl ?_) rfl
    exact replies_congr .rfl (by simp [ho, answered_iff])

theorem sourced_of_run (h : Run (Det step) (new upstreamInfo memory) as s) : Sourced upstreamInfo as s := by
  have hi : s.Exclusive ∧ Sourced upstreamInfo as s := by
    refine h.trace_invariant (I := fun as s => s.Exclusive ∧ Sourced upstreamInfo as s) ⟨.new, .new⟩ ?_
    rintro as s e t ⟨hx, hi⟩ hst
    exact ⟨hx.step (step_cases hst), hi.step hx (step_cases hst)⟩
  exact hi.2

/-- At most one of the two tasks hands a response over. -/
theorem Exclusive.replies_le (hx : s.Exclusive) : s.replies ≤ 1 := by
  rw [replies]
  rcases hx.one with h | h
  · rw [h, if_neg (by simp)]
    split <;> omega
  · rw [h, if_neg (c := Work.none = .answered) (by simp)]
    split <;> omega

/-- A relayed text is all that the upstream server has sent before the end of its stream. -/
theorem Relays.whole (hi : Relays as s) {r : ResponseKind × Bytes} (hr : r ∈ s.handed) (hk : r.1 = .relay) :
    ∃ chunks, reads as = delivered chunks ++ [(.eof, [])] ∧ r = (.relay, chunks.flatten) := by
  have hm : r.2 ∈ relayed s.handed := List.mem_map_of_mem (List.mem_filter.2 ⟨hr, by simp [hk]⟩)
  unfold Relays at hi
  generalize s.outgoing = task at hi
  generalize reads as = rs at hi ⊢
  generalize relayed s.handed = out at hi hm
  cases hi with
  | @relaying _ chunks | @done _ chunks => exact ⟨chunks, rfl, Prod.ext hk (List.mem_singleton.1 hm)⟩
  | _ => cases hm

/-! ### The writes in flight -/

/-- Each write in flight reads from `response_` the text that was handed over for it. -/
structure WritesIntact (s : HttpSession) : Prop where
  timeout : s.timeout = .writing .pending → (.timeout, s.response) ∈ s.handed
  reply : s.reply = .writing .pending → (.disallow, s.response) ∈ s.handed ∨ (.health, s.response) ∈ s.handed
  relay : s.outgoing = .relaying .pending → (.relay, s.response) ∈ s.handed

theorem WritesIntact.new : WritesIntact (new upstreamInfo memory) := by constructor <;> simp [HttpSession.new]

theorem of_not_writing (h : s.isWriting = false) :
    s.timeout ≠ .writing .pending ∧ s.reply ≠ .writing .pending ∧ s.outgoing ≠ .relaying .pending := by
  have hn := mt isWriting_iff.2 (Bool.eq_false_iff.1 h)
  rwa [not_or, not_or] at hn

theorem WritesIntact.of_idle (h : s.isWriting = false) : s.WritesIntact := by
  obtain ⟨ht, hr, ho⟩ := of_not_writing h
  exact ⟨fun h => absurd h ht, fun h => absurd h hr, fun h => absurd h ho⟩

/-- Nothing is assigned to `response_`, and no write is started. -/
theorem WritesIntact.congr (hi : s.WritesIntact) (hr : t.response = s.response) (hh : t.handed = s.handed)
    (htm : t.timeout = .writing .pending → s.timeout = .writing .pending)
    (hrp : t.reply = .writing .pending → s.reply = .writing .pending)
    (ho : t.outgoing = .relaying .pending → s.outgoing = .relaying .pending) : t.WritesIntact := by
  constructor <;> rw [hr, hh]
  · exact fun h => hi.timeout (htm h)
  · exact fun h => hi.reply (hrp h)
  · exact fun h => hi.relay (ho h)

theorem WritesIntact.shutdown (s : HttpSession) : s.shutdown.WritesIntact := .of_idle (isWriting_shutdown s)

theorem WritesIntact.stopHandler (hi : s.WritesIntact) : s.stopHandler.WritesIntact := by
  rcases stopHandler_cases s with ⟨-, h⟩ | ⟨-, h⟩ <;> rw [h]
  · exact hi.congr rfl rfl id id id
  · exact .shutdown _

theorem WritesIntact.step (hi : s.clobbered = false → s.WritesIntact) (h : Step s e t)
    (hc : t.clobbered = false) : t.WritesIntact := by
  cases h with
  | start | stop | headerRead | timerExpires | startFailed | obtainHeader | headerFailed | headerDropped
  | timerCancelled => exact (hi hc).congr rfl rfl id id id
  | timeoutWritten | timerFired | timeoutCancelled | timeoutLate =>
    exact (hi hc).congr rfl rfl (by simp) id id
  | replyWritten | disallow | health | replyDone => exact (hi hc).congr rfl rfl id (by simp) id
  | relayWritten | upstreamDone | upstreamRead | forward | sslFailed | resolve | upstreamFailed | connect
  | onConnect | sendRequest | readResponse | readFailed | readChunk =>
    exact (hi hc).congr rfl rfl id id (by simp)
  | timeoutFailed =>
    have hs : s.clobbered = false := by
      rw [← hc]
      exact (quiet_stopHandler s).clobbered.symm
    exact (hi hs).stopHandler.congr rfl rfl (by simp) id id
  | timeoutDone => exact (WritesIntact.shutdown s).congr rfl rfl (by simp) id id
  | relayDone => exact (WritesIntact.shutdown s).congr rfl rfl id id (by simp)
  | @runStop n =>
    have hs : s.clobbered = false := by
      rw [← hc]
      exact (quiet_stopHandler { s with stops := n }).clobbered.symm
    have hi' : WritesIntact { s with stops := n } := (hi hs).congr rfl rfl id id id
    exact hi'.stopHandler
  | timeoutReply =>
    -- `clobbered` is still false, so nothing was in flight when `response_` was assigned
    obtain ⟨-, hr, ho⟩ := of_not_writing (s := s) (Bool.or_eq_false_iff.1 hc).2
    exact ⟨fun _ => by simp [HttpSession.respond], fun h => absurd h hr, fun h => absurd h ho⟩
  | replyDisallow | replyHealth =>
    obtain ⟨ht, -, ho⟩ := of_not_writing (s := s) (Bool.or_eq_false_iff.1 hc).2
    exact ⟨fun h => absurd h ht, fun _ => by simp [HttpSession.respond], fun h => absurd h ho⟩
  | relay =>
    obtain ⟨ht, hr, -⟩ := of_not_writing (s := s) (Bool.or_eq_false_iff.1 hc).2
    exact ⟨fun h => absurd h ht, fun h => absurd h hr, fun _ => by simp [HttpSession.respond]⟩

/-- As long as `response_` has not been assigned while a write of it was in flight. -/
theorem writesIntact_of_run (h : Run (Det step) (new upstreamInfo memory) as s) (hc : s.clobbered = false) :
    s.WritesIntact := by
  have hi : s.clobbered = false → s.WritesIntact :=
    h.invariant (I := fun s => s.clobbered = false → s.WritesIntact)
      (fun _ _ _ hi hst => WritesIntact.step hi (step_cases hst)) fun _ => .new
  exact hi hc

/-! ### At least one response -/

/-- What the upstream server has sent. -/
def received (as : List Event) : Bytes := ((reads as).map (·.2)).flatten

theorem received_of_end {chunks : List Bytes} (h : reads as = delivered chunks ++ [(.eof, [])]) :
    received as = chunks.flatten := by
  simp [received, h, delivered, Function.comp_def]

/-- The local texts are not empty. -/
theorem Known.ne_nil {r : ResponseKind × Bytes} (h : Known r) (hr : r.1 ≠ .relay) : r.2 ≠ [] := by
  rcases h with rfl | rfl | rfl | h
  · exact (by decide +kernel : timeoutResponse ≠ [])
  · exact (by decide +kernel : disallowResponse ≠ [])
  · exact (by decide +kernel : healthResponse ≠ [])
  · exact absurd h hr

theorem Relays.of_answered (hi : Relays as s) (hw : s.outgoing.work = .answered) :
    ∃ chunks, reads as = delivered chunks ++ [(.eof, [])] ∧ relayed s.handed = [chunks.flatten] := by
  rcases answered_iff.1 hw with ⟨op, ho⟩ | ho
  · exact (hi.at ho).of_relaying
  · exact (hi.at ho).of_done

/-- What a session that was not stopped has handed over: a local text if its upstream server has sent
nothing, not even an end, else all that the upstream server has sent before the end of its stream. -/
theorem handed_cases (h : Run (Det step) (new upstreamInfo memory) as s) (hs : s.stopped = false)
    (hn : s.handed ≠ []) :
    reads as = [] ∧ (∃ r ∈ s.handed, r.2 ≠ []) ∨
      (.eof, []) ∈ reads as ∧ s.handed = [(.relay, received as)] := by
  obtain ⟨ls, -, hrun⟩ := exchange_of_run h
  have hi := Exchange.settled_of_run hrun
  obtain ⟨hx, hrelay⟩ := relays_of_run h
  have hwork : s.work = .answered := by_contra fun hw => hn (hi.waiting hw hs)
  obtain ⟨r, hr⟩ : ∃ r, s.handed = [r] := by
    have hpos := List.length_pos_iff.2 hn
    have hone : s.handed.length ≤ 1 := hi.one hs
    exact List.length_eq_one_iff.1 (by omega)
  by_cases hw : s.outgoing.work = .none
  · obtain ⟨hrs, hout⟩ := (hrelay.at (OutgoingTask.work_eq_none.1 hw)).of_none
    have hk : r.1 ≠ .relay := fun hk => by simp [relayed, hr, hk] at hout
    have hm : r ∈ s.handed := by simp [hr]
    exact .inl ⟨hrs, r, hm, ((sourced_of_run h).known r hm).ne_nil hk⟩
  · rw [(hx.work_outgoing hw).2] at hwork
    obtain ⟨chunks, hrs, hout⟩ := hrelay.of_answered hwork
    have hk : r.1 = .relay := by_contra fun hk => by simp [relayed, hr, hk] at hout
    have hr' : r.2 = chunks.flatten := by simpa [relayed, hr, hk] using hout
    refine .inr ⟨by simp [hrs], ?_⟩
    rw [hr, received_of_end hrs, ← hr', ← hk]

/-- Once nothing is pending or ready any more, a session that read a header block and was not stopped has
handed a response with something in it over iff no upstream step has failed and the upstream server, if it
has ended its stream, has sent something before. -/
theorem handed_iff (h : Run (Det step) (new upstreamInfo memory) as s) (hh : ∃ e ∈ as, e.HeaderArrives)
    (hs : s.stopped = false) (hp : s.isPending = false) (hr : s.isReady = false) :
    (∃ r ∈ s.handed, r.2 ≠ []) ↔
      (∀ e ∈ as, ¬ e.UpstreamFails) ∧ ((.eof, []) ∈ reads as → received as ≠ []) := by
  rw [← handed_ne_nil_iff h hh hs hp hr]
  constructor
  · rintro ⟨r, hm, hne⟩
    have hn := List.ne_nil_of_mem hm
    refine ⟨hn, fun he => ?_⟩
    rcases handed_cases h hs hn with ⟨hrs, -⟩ | ⟨-, hl⟩
    · simp [hrs] at he
    · simpa [List.mem_singleton.1 (hl ▸ hm)] using hne
  · rintro ⟨hn, he⟩
    rcases handed_cases h hs hn with ⟨-, hm⟩ | ⟨hm, hl⟩
    · exact hm
    · exact ⟨_, hl ▸ List.mem_singleton_self _, he hm⟩

/-- The upstream server sends `chunks` and ends its stream; the client takes what it is handed. -/
def relayedRun (chunks : List Bytes) : List Event :=
  upstreamReads ++ readEvents .eof chunks ++ [.relayWritten .success, .runOutgoing, .runTimer]

theorem handed_iff_relayed : ∃ s s',
    Run (Det step) (new exampleUpstream []) (relayedRun twoChunks) s ∧ s.handed = [(.relay, [104, 0, 105])] ∧
    Run (Det step) (new exampleUpstream []) (relayedRun []) s' ∧ s'.handed = [(.relay, [])] ∧
    ((∃ r ∈ s.handed, r.2 ≠ []) ↔ (∀ e ∈ relayedRun twoChunks, ¬ e.UpstreamFails) ∧
      ((.eof, []) ∈ reads (relayedRun twoChunks) → received (relayedRun twoChunks) ≠ [])) ∧
    ((∃ r ∈ s'.handed, r.2 ≠ []) ↔ (∀ e ∈ relayedRun [], ¬ e.UpstreamFails) ∧
      ((.eof, []) ∈ reads (relayedRun []) → received (relayedRun []) ≠ [])) := by
  obtain ⟨s, h, hs⟩ := Lts.exists_run (p := fun s : HttpSession => !s.stopped && !s.isPending && !s.isReady &&
      s.handed = [(.relay, [104, 0, 105])])
    (show (((relayedRun twoChunks).foldlM step (new exampleUpstream [])).any _) = true by decide +kernel)
  obtain ⟨s', h', hs'⟩ := Lts.exists_run (p := fun s : HttpSession => !s.stopped && !s.isPending &&
      !s.isReady && s.handed = [(.relay, [])])
    (show (((relayedRun []).foldlM step (new exampleUpstream [])).any _) = true by decide +kernel)
  simp only [Bool.and_eq_true, Bool.not_eq_true', decide_eq_true_eq] at hs hs'
  obtain ⟨⟨⟨hs, hp⟩, hr⟩, hh⟩ := hs
  obtain ⟨⟨⟨hs', hp'⟩, hr'⟩, hh'⟩ := hs'
  exact ⟨s, s', h, hh, h', hh', handed_iff h (by decide +kernel) hs hp hr,
    handed_iff h' (by decide +kernel) hs' hp' hr'⟩

/-- The upstream refuses the connection of an admitted request. -/
def refusedRun : List Event :=
  headerArrives timeRequest ++
    [.runHeader true, .startOutgoing true, .upstreamDone .resolve .success, .runOutgoing,
     .upstreamDone .connect .connectionRefused, .runOutgoing, .runTimer]

theorem refusedRun_not_answered : ∃ s,
    Run (Det step) (new exampleUpstream []) refusedRun s ∧ (∃ e ∈ refusedRun, e.HeaderArrives) ∧
    s.stopped = false ∧ s.timer = .done ∧ s.isPending = false ∧ s.isReady = false ∧ s.handed = [] := by
  have h : (refusedRun.foldlM step (new exampleUpstream [])).map
      (fun s => (s.stopped, s.timer, s.isPending, s.isReady, s.handed.length)) =
      some (false, .done, false, false, 0) := by decide +kernel
  obtain ⟨s, hs, he⟩ := Option.map_eq_some_iff.1 h
  simp only [Prod.mk.injEq, List.length_eq_zero_iff] at he
  exact ⟨s, Lts.run_det_iff.2 hs, by decide +kernel, he⟩

end MarketBridge.HttpSession
