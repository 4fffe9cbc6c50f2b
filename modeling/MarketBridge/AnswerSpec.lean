import MarketBridge.SourceSpec
import MarketBridge.SystemSpec

/-!
# What a client gets and what goes upstream

Every byte has its source. What is written to the upstream server is `generate_request` of the one header
block that was read on the same connection; what is handed to the client is one of the three local texts or
the whole of what the upstream server has sent on the same connection. What is handed over is read from
`response_`, so this says what the client gets as long as a late 408 does not replace it under a write.
-/

namespace MarketBridge

open Lts (Run Det)

namespace HttpSession

/-- Only what the peers do is read. -/
theorem reads_byPeer (es : List Event) : reads (es.filter (·.byPeer)) = reads es := by
  rw [reads, reads, List.filterMap_filter]
  refine List.filterMap_congr fun e _ => ?_
  cases e <;> rfl

theorem blocks_byPeer (es : List Event) : blocks (es.filter (·.byPeer)) = blocks es := by
  rw [blocks, blocks, List.filterMap_filter]
  refine List.filterMap_congr fun e _ => ?_
  cases e <;> rfl

end HttpSession

namespace System

open HttpSession (reads blocks delivered)

variable {s : System} {as : List Event} {cfg : Config} {memory : ConnId → Bytes} {now : ℚ} {c : ConnId}

/-- In every run of the whole, whatever the other connections do: as long as `response_` has not been assigned
while it was being written, a client is handed the local texts, or the whole of what the upstream server has
sent for it, and at most one of them besides the 408, and every write in flight reads what was handed to it;
the upstream server is sent `generate_request` of the one block that was read from this client. -/
theorem answered_from_peers {session : HttpSession} (h : Run (Det step) (new cfg memory now) as s)
    (hc : s.conns c = .http session) :
    (session.clobbered = false →
      (∀ r ∈ session.handed, r = (.timeout, timeoutResponse) ∨ r = (.disallow, disallowResponse) ∨
        r = (.health, healthResponse) ∨ ∃ chunks,
          reads (peerEvents as c) = delivered chunks ++ [(.eof, [])] ∧ r = (.relay, chunks.flatten)) ∧
      session.handed.countP (fun r => r.1 ≠ .timeout) ≤ 1 ∧ session.WritesIntact) ∧
    (session.outgoingSession.httpRequest ≠ [] → ∃ raw, IsHeaderBlock raw ∧ blocks (peerEvents as c) = [raw] ∧
      (parseRequest raw).target ≠ lit "/health" ∧
      session.outgoingSession.httpRequest = generateRequest (parseRequest raw) cfg.upstream.host) := by
  obtain ⟨es, hr, hes, -⟩ := session_of_run h hc
  have hi := HttpSession.sourced_of_run hr
  obtain ⟨hx, hrelay⟩ := HttpSession.relays_of_run hr
  rw [← hes, HttpSession.reads_byPeer, HttpSession.blocks_byPeer]
  refine ⟨fun hw => ⟨fun r hm => ?_, ?_, HttpSession.writesIntact_of_run hr hw⟩, fun hs => ?_⟩
  · rcases hi.known r hm with hk | hk | hk | hk
    · exact .inl hk
    · exact .inr (.inl hk)
    · exact .inr (.inr (.inl hk))
    · exact .inr (.inr (.inr (hrelay.whole hm hk)))
  · rw [hi.once]
    exact hx.replies_le
  · obtain ⟨ho, hsent⟩ := hi.sent hs
    obtain ⟨raw, hb, hl, hq, ht⟩ := hi.asked ho
    refine ⟨raw, hb, hl, ht, ?_⟩
    rw [hsent, hq]
    rfl

/-- The upstream server answers the request of a connection in two pieces. -/
def upstreamAnswers (c : ConnId) : List Event :=
  [.server (.session c (.startOutgoing true)), .server (.session c (.upstreamDone .resolve .success)),
   .server (.session c .runOutgoing), .server (.session c (.upstreamDone .connect .success)),
   .server (.session c .runOutgoing), .server (.session c (.upstreamDone .handshake .success)),
   .server (.session c .runOutgoing), .server (.session c (.upstreamDone .write .success)),
   .server (.session c .runOutgoing), .server (.session c (.upstreamRead .success (lit "HTTP/1.1 200"))),
   .server (.session c .runOutgoing), .server (.session c (.upstreamRead .success (lit " OK\r\n\r\n"))),
   .server (.session c .runOutgoing), .server (.session c (.upstreamRead .eof [])),
   .server (.session c .runOutgoing)]

/-- One client is relayed to while another one asks for `/health`. -/
def relayBesideHealth : List Event :=
  connects 0 ++ connects 1 ++ asks 0 HttpSession.timeRequest ++ asks 1 HttpSession.healthRequest ++
    upstreamAnswers 0

theorem answered_from_peers_two : ∃ s session, Run (Det step) (new {} (fun _ => []) 0) relayBesideHealth s ∧
    s.conns 0 = .http session ∧ session.handed = [(.relay, lit "HTTP/1.1 200 OK\r\n\r\n")] ∧
    session.outgoing = .relaying .pending ∧ session.WritesIntact ∧
    ∀ r ∈ session.handed, r = (.timeout, timeoutResponse) ∨
      r = (.disallow, disallowResponse) ∨ r = (.health, healthResponse) ∨ ∃ chunks,
        reads (peerEvents relayBesideHealth 0) = delivered chunks ++ [(.eof, [])] ∧
        r = (.relay, chunks.flatten) := by
  obtain ⟨s, h, hs⟩ := Lts.exists_run (p := fun s : System => (s.conns 0).session?.any fun session =>
      session.handed = [(.relay, lit "HTTP/1.1 200 OK\r\n\r\n")] ∧ session.outgoing = .relaying .pending ∧
        session.clobbered = false)
    (show ((relayBesideHealth.foldlM step (new {} (fun _ => []) 0)).any _) = true by decide +kernel)
  obtain ⟨session, hc, hh⟩ := (Option.any_eq_true _ _).1 hs
  have hc := Conn.session?_eq_some.1 hc
  obtain ⟨hl, ho, hw⟩ := of_decide_eq_true hh
  obtain ⟨hr, -, hi⟩ := (answered_from_peers h hc).1 hw
  exact ⟨s, session, h, hc, hl, ho, hi, hr⟩

end System

end MarketBridge
