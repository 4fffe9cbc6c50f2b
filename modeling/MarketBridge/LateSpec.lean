import MarketBridge.DrainSpec
import MarketBridge.ThrottleSpec

/-!
# Clients that come too late

The flag of `schedule_shutdown` freezes the registry: a connection whose session has not been registered by then
is accepted, sniffed or decrypted at most. Its session is never started, so nothing is read from its client,
nothing is decided about it and nobody is answered.
-/

namespace MarketBridge

open Lts (Run Det)

namespace HttpSession

variable {s t : HttpSession} {e : Event} {as : List Event} {upstreamInfo : UpstreamInfo} {memory : Bytes}

/-- A session that has not been started has done nothing. -/
structure Untried (s : HttpSession) : Prop where
  timer : s.timer = .idle
  timeout : s.timeout = .none
  reply : s.reply = .none
  outgoing : s.outgoing = .none
  handed : s.handed = []

theorem Untried.shutdown (hi : s.Untried) : s.shutdown.Untried where
  timer := hi.timer
  timeout := by simp [HttpSession.shutdown, hi.timeout, TimeoutTask.close]
  reply := by simp [HttpSession.shutdown, hi.reply, ReplyTask.close]
  outgoing := by simp [HttpSession.shutdown, hi.outgoing, OutgoingTask.close]
  handed := hi.handed

theorem Untried.stopHandler (hi : s.Untried) : s.stopHandler.Untried := by
  rcases stopHandler_cases s with ⟨-, he⟩ | ⟨-, he⟩ <;> rw [he]
  · exact ⟨hi.timer, hi.timeout, hi.reply, hi.outgoing, hi.handed⟩
  · have hs := hi.shutdown
    exact ⟨hs.timer, hs.timeout, hs.reply, hs.outgoing, hs.handed⟩

theorem Step.untried (hi : s.header = .constructed → s.Untried) (h : Step s e t) (ht : t.header = .constructed) :
    t.Untried := by
  have hs := hi (h.of_constructed ht)
  have htimer := hs.timer
  have htimeout := hs.timeout
  have hreply := hs.reply
  have houtgoing := hs.outgoing
  cases h with
  | start | headerRead | startFailed | obtainHeader | headerFailed | headerDropped | disallow | health
  | forward => cases ht
  | stop => exact ⟨htimer, htimeout, hreply, houtgoing, hs.handed⟩
  | timerExpires h | timerCancelled h | timerFired h => simp [htimer] at h
  | timeoutWritten h | timeoutCancelled h | timeoutFailed h | timeoutLate h | timeoutReply h | timeoutDone h =>
    simp [htimeout] at h
  | replyWritten h | replyDisallow h | replyHealth h | replyDone h => simp [hreply] at h
  | @runStop n =>
    have hn : Untried { s with stops := n } := ⟨htimer, htimeout, hreply, houtgoing, hs.handed⟩
    exact hn.stopHandler
  | relayWritten h | upstreamDone h | upstreamRead h | sslFailed h | resolve h | upstreamFailed h | connect h
  | onConnect h | sendRequest h | readResponse h | readFailed h | readChunk h | relay h | relayDone h =>
    simp [houtgoing] at h

theorem untried_of_run (h : Run (Det step) (new upstreamInfo memory) as s) (hc : s.header = .constructed) :
    s.Untried :=
  h.invariant (I := fun s => s.header = .constructed → s.Untried)
    (fun _ _ _ hi h ht => (step_cases h).untried hi ht) (fun _ => ⟨rfl, rfl, rfl, rfl, rfl⟩) hc

end HttpSession

/-- The flag is set for good, and no session is registered any more. -/
theorem Registry.Step.frozen {ι : Type} [DecidableEq ι] {r r' : Registry ι} {a : Registry.Action ι} {i : ι}
    (h : Registry.Step r a r') (hp : r.shutdownPending = true) (hi : (i, true) ∉ r.results) :
    r'.shutdownPending = true ∧ (i, true) ∉ r'.results := by
  cases h with
  | register _ _ hp' => simp [hp] at hp'
  | refuse => exact ⟨hp, by simpa using hi⟩
  | win => exact ⟨rfl, hi⟩
  | _ => exact ⟨hp, hi⟩

namespace System

variable {s t : System} {e : Event} {as bs : List Event} {cfg : Config} {memory : ConnId → Bytes} {now : ℚ}
  {c : ConnId}

/-- The registry takes a step of its own or none. -/
theorem Step.registry_step (h : Step s e t) : t.listeners.registry = s.listeners.registry ∨
    ∃ a, Registry.Step s.listeners.registry a t.listeners.registry := by
  rcases h.server_step with he | ⟨e', -, hs⟩
  · exact .inl (congrArg Server.registry he)
  · exact (Server.step_cases hs).registry

/-- The limiter is asked for registered sessions only. -/
structure Granted (s : System) : Prop where
  inv : s.server.Inv
  registered : ∀ d ∈ s.decisions, (⟨d.conn, .http⟩, true) ∈ s.listeners.registry.results

theorem Granted.step (hi : s.Granted) (h : Step s e t) : t.Granted := by
  have hinv : t.server.Inv := by
    rcases h.server_step with he | ⟨e', -, hs⟩
    · exact he ▸ hi.inv
    · exact hi.inv.step (Server.step_cases hs)
  have hkept : ∀ i, (i, true) ∈ s.listeners.registry.results → (i, true) ∈ t.listeners.registry.results := by
    intro i hm
    rcases h.registry_step with he | ⟨a, hr⟩
    · exact he ▸ hm
    · exact hr.results hm
  refine ⟨hinv, fun d hd => ?_⟩
  cases h.limiterStep with
  | idle _ hdec => exact hkept _ (hi.registered d (hdec ▸ hd))
  | @asked c session he hc ha _ _ hdec =>
    rw [hdec, List.mem_append] at hd
    rcases hd with hd | hd
    · exact hkept _ (hi.registered d hd)
    · obtain rfl := List.mem_singleton.1 hd
      refine hkept _ ((hi.inv.serves c session hc).registered fun hh => ?_)
      simp [HttpSession.asksLimiter, hh] at ha

theorem granted_of_run (h : Run (Det step) (new cfg memory now) as s) : s.Granted :=
  h.invariant (fun _ _ _ hi h => hi.step (step_cases h)) ⟨.new, by simp [System.new]⟩

/-- A connection whose session is not registered when the shutdown begins is never served. -/
theorem late_clients (h : Run (Det step) (new cfg memory now) as s)
    (hp : s.listeners.registry.shutdownPending = true)
    (hr : (⟨c, .http⟩, true) ∉ s.listeners.registry.results) (ht : Run (Det step) s bs t) :
    (∀ d ∈ t.decisions, d.conn ≠ c) ∧ ∀ session, t.conns c = .http session →
      session.header = .constructed ∧ session.outgoing = .none ∧ session.handed = [] := by
  have hfrozen : t.listeners.registry.shutdownPending = true ∧
      (⟨c, .http⟩, true) ∉ t.listeners.registry.results := by
    refine ht.invariant (I := fun u => u.listeners.registry.shutdownPending = true ∧
      (⟨c, .http⟩, true) ∉ u.listeners.registry.results) (fun u e v hu hst => ?_) ⟨hp, hr⟩
    rcases (step_cases hst).registry_step with he | ⟨a, hr⟩
    · exact he ▸ hu
    · exact hr.frozen hu.1 hu.2
  have hrun := h.append ht
  have hgranted := granted_of_run hrun
  refine ⟨fun d hd hc => hfrozen.2 (hc ▸ hgranted.registered d hd), fun session hc => ?_⟩
  have hheader : session.header = .constructed :=
    by_contra fun hh => hfrozen.2 ((hgranted.inv.serves c session hc).registered hh)
  obtain ⟨es, hes, -⟩ := session_of_run hrun hc
  have huntried := HttpSession.untried_of_run hes hheader
  exact ⟨hheader, huntried.outgoing, huntried.handed⟩

/-- A signal comes between the dispatch of a connection and the registration of its session. -/
def lateClient : List Event :=
  [.listener (.checkShutdown .http), .listener (.startAccept .http), .accepted .http 0, .listener (.resume .http),
   .dispatch .http ⟨true, true⟩, .listener .signal, .listener .runSignalHandler, .server (.compareExchange 0)]

theorem late_clients_dispatched : ∃ s t session, Run (Det step) (new {} (fun _ => []) 0) lateClient s ∧
    Run (Det step) s [.server (.runDispatch 0), .server (.collect 0)] t ∧ t.conns 0 = .http session ∧
    (∀ d ∈ t.decisions, d.conn ≠ 0) ∧ session.header = .constructed ∧ session.handed = [] := by
  obtain ⟨s, h, hs⟩ := Lts.exists_run (p := fun s : System => s.listeners.registry.shutdownPending = true ∧
      s.listeners.registry.results = [] ∧
      (([.server (.runDispatch 0), .server (.collect 0)].foldlM step s).any fun t =>
        (t.conns 0).session?.isSome) = true)
    (show ((lateClient.foldlM step (new {} (fun _ => []) 0)).any _) = true by decide +kernel)
  obtain ⟨hp, hr, ht⟩ := of_decide_eq_true hs
  obtain ⟨t, ht, hc⟩ := Lts.exists_run ht
  obtain ⟨session, hc⟩ := Option.isSome_iff_exists.1 hc
  have hc := Conn.session?_eq_some.1 hc
  obtain ⟨hd, hsession⟩ := late_clients (c := 0) h hp (by simp [hr]) ht
  obtain ⟨hh, -, hhanded⟩ := hsession session hc
  exact ⟨s, t, session, h, ht, hc, hd, hh, hhanded⟩

end System

end MarketBridge
