import MarketBridge.Server
import MarketBridge.SessionStep
import MarketBridge.RegistrySpec

/-!
# What one step of the server can do

Every event changes one connection and takes at most one step of the registry.
-/

namespace MarketBridge.Server

variable {s t : Server} {e : Event}

theorem setConn_conns (s : Server) (c c' : ConnId) (conn : Conn) :
    (s.setConn c conn).conns c' = if c' = c then conn else s.conns c' := by
  simp [setConn, Function.update_apply]

/-- The step of the registry that is the whole of a step of `schedule_shutdown`. -/
def Event.shutdownAction : Event → Option (Registry.Action SessionId)
  | .scheduleShutdown => some .scheduleShutdown
  | .compareExchange k => some (.compareExchange k)
  | .collect k => some (.collect k)
  | .closeAcceptors k => some (.closeAcceptors k)
  | _ => none

/-- The event makes a `HandshakeSession` of the connection's socket, given an SSL context. -/
def Secures (s : Server) (c : ConnId) (sslContextOk : Bool) (e : Event) : Prop :=
  e = .runListener c sslContextOk ∧ s.conns c = .accepted .https ∨
  e = .runSniff c sslContextOk ∧ ∃ data, s.conns c = .sniffing (.ready (.success, data))

def Launches (s : Server) (c : ConnId) (e : Event) : Prop :=
  e = .runDispatch c ∧ s.conns c = .dispatching ∧ s.cfg.server.allowHttpsOverHttpPort = false ∨
  (∃ sslContextOk data, e = .runSniff c sslContextOk ∧ s.conns c = .sniffing (.ready (.success, data))) ∨
  e = .runHandshake c ∧ s.conns c = .handshake (.handshaking (.ready .success))

inductive Step (s : Server) : Event → Server → Prop
  | accept {c : ConnId} {port : Port} (h : s.conns c = .fresh) :
      Step s (.accept c port) (s.setConn c (.accepted port))
  | dispatch {c : ConnId} {sslContextOk : Bool} (h : s.conns c = .accepted .http) :
      Step s (.runListener c sslContextOk) (s.setConn c .dispatching)
  | sniff {c : ConnId} (h : s.conns c = .dispatching) (ha : s.cfg.server.allowHttpsOverHttpPort = true) :
      Step s (.runDispatch c) (s.setConn c (.sniffing .pending))
  | peeked {c : ConnId} {ec : ErrorCode} {data : Bytes} (h : s.conns c = .sniffing .pending)
      (hp : PeekResult ec data) : Step s (.peeked c ec data) (s.setConn c (.sniffing (.ready (ec, data))))
  | sniffFailed {c : ConnId} {ec : ErrorCode} {data : Bytes} {sslContextOk : Bool}
      (h : s.conns c = .sniffing (.ready (ec, data))) (he : ec ≠ .success) :
      Step s (.runSniff c sslContextOk) (s.setConn c .closed)
  | noContext {c : ConnId} {e : Event} (h : s.Secures c false e) : Step s e (s.setConn c .closed)
  | secure {c : ConnId} {e : Event} {r : Registry SessionId} (h : s.Secures c true e)
      (hr : Registry.Step s.registry (.construct ⟨c, .handshake⟩) r) :
      Step s e ({ s with registry := r }.setConn c (.handshake .constructed))
  | launch {c : ConnId} {e : Event} {r : Registry SessionId} (h : s.Launches c e)
      (hr : Registry.Step s.registry (.construct ⟨c, .http⟩) r) :
      Step s e ({ s with registry := r }.setConn c (.http (.new s.upstreamInfo (s.memory c))))
  | registerHandshake {c : ConnId} {r : Registry SessionId} (h : s.conns c = .handshake .constructed)
      (hr : Registry.Step s.registry (.registerSession ⟨c, .handshake⟩) r) :
      Step s (.registerSession ⟨c, .handshake⟩) ({ s with registry := r }.setConn c
        (if s.registry.shutdownPending then .closed else .handshake .registered))
  | registerHttp {c : ConnId} {session : HttpSession} {r : Registry SessionId} (h : s.conns c = .http session)
      (hh : session.header = .constructed) (hr : Registry.Step s.registry (.registerSession ⟨c, .http⟩) r) :
      Step s (.registerSession ⟨c, .http⟩) ({ s with registry := r }.setConn c
        (if s.registry.shutdownPending then .closed else .http session))
  | startHandshake {c : ConnId} {r : Registry SessionId} (h : s.conns c = .handshake .registered)
      (hr : Registry.Step s.registry (.start ⟨c, .handshake⟩) r) :
      Step s (.startSession ⟨c, .handshake⟩) ({ s with registry := r }.setConn c (.handshake .spawned))
  | startHttp {c : ConnId} {session session' : HttpSession} {r : Registry SessionId}
      (h : s.conns c = .http session) (hs : session.Step .start session')
      (hr : Registry.Step s.registry (.start ⟨c, .http⟩) r) :
      Step s (.startSession ⟨c, .http⟩) ({ s with registry := r }.setConn c (.http session'))
  | handshake {c : ConnId} (h : s.conns c = .handshake .spawned) :
      Step s (.runHandshake c) (s.setConn c (.handshake (.handshaking .pending)))
  | handshaken {c : ConnId} {ec : ErrorCode} (h : s.conns c = .handshake (.handshaking .pending)) :
      Step s (.handshaken c ec) (s.setConn c (.handshake (.handshaking (.ready ec))))
  | handshakeFailed {c : ConnId} {ec : ErrorCode} (h : s.conns c = .handshake (.handshaking (.ready ec)))
      (he : ec ≠ .success) : Step s (.runHandshake c) (s.setConn c .closed)
  | session {c : ConnId} {e : HttpSession.Event} {session session' : HttpSession}
      (h : s.conns c = .http session) (he : e ≠ .start) (he' : e ≠ .stop) (hs : session.Step e session') :
      Step s (.session c e) (s.setConn c (.http session'))
  | finish {c : ConnId} {session : HttpSession} (h : s.conns c = .http session)
      (hp : session.isPending = false) (hr : session.isReady = false) :
      Step s (.finish c) (s.setConn c .closed)
  | destroy {i : SessionId} {r : Registry SessionId} (hu : (s.conns i.conn).uses i.kind = false)
      (hr : Registry.Step s.registry (.destroy i) r) : Step s (.destroy i) { s with registry := r }
  | shutdown {e : Event} {a : Registry.Action SessionId} {r : Registry SessionId}
      (he : e.shutdownAction = some a) (hr : Registry.Step s.registry a r) : Step s e { s with registry := r }
  | stopNext {k : Nat} {active rest : List SessionId} {i : SessionId} {r : Registry SessionId}
      (hk : s.registry.calls[k]? = some (.stopping active (i :: rest)))
      (hr : Registry.Step s.registry (.stopNext k) r) :
      Step s (.stopNext k) ({ s with registry := r }.stopSession i)

theorem of_act {a : Registry.Action SessionId} (h : s.act a = some t) :
    ∃ r, Registry.Step s.registry a r ∧ t = { s with registry := r } := by
  obtain ⟨r, hr, rfl⟩ := Option.map_eq_some_iff.1 h
  exact ⟨r, Registry.step_cases hr, rfl⟩

theorem launchHttpSession_step {c : ConnId} (hl : s.Launches c e) (h : s.launchHttpSession c = some t) :
    Step s e t := by
  obtain ⟨u, hu, rfl⟩ := Option.map_eq_some_iff.1 h
  obtain ⟨r, hr, rfl⟩ := of_act hu
  exact .launch hl hr

theorem sslHandshake_step {c : ConnId} {sslContextOk : Bool} (hs : s.Secures c sslContextOk e)
    (h : s.sslHandshake c sslContextOk = some t) : Step s e t := by
  cases sslContextOk with
  | false =>
    obtain rfl : _ = t := by simpa [sslHandshake] using h
    exact .noContext hs
  | true =>
    obtain ⟨u, hu, rfl⟩ := Option.map_eq_some_iff.1 (by simpa [sslHandshake] using h)
    obtain ⟨r, hr, rfl⟩ := of_act hu
    exact .secure hs hr

theorem step_cases (h : step s e = some t) : Step s e t := by
  cases e with
  | accept c port =>
    simp only [step] at h
    split at h
    · obtain ⟨-, rfl⟩ : _ ∧ _ = t := by simpa using h
      exact .accept ‹_›
    · cases h
  | runListener c ok =>
    simp only [step] at h
    split at h
    · obtain rfl : _ = t := by simpa using h
      exact .dispatch ‹_›
    · exact sslHandshake_step (.inl ⟨rfl, ‹_›⟩) h
    · cases h
  | runDispatch c =>
    simp only [step] at h
    split at h
    · rename_i hc
      cases ha : s.cfg.server.allowHttpsOverHttpPort with
      | false =>
        have hl : s.launchHttpSession c = some t := by simpa [dispatchHttpRequest, ha] using h
        exact launchHttpSession_step (.inl ⟨rfl, hc, ha⟩) hl
      | true =>
        obtain rfl : _ = t := by simpa [dispatchHttpRequest, ha] using h
        exact .sniff hc ha
    · cases h
  | peeked c ec data =>
    simp only [step] at h
    split at h
    · obtain ⟨hp, rfl⟩ : _ ∧ _ = t := by simpa using h
      exact .peeked ‹_› hp
    · cases h
  | runSniff c ok =>
    simp only [step] at h
    split at h
    · rename_i ec data hc
      by_cases he : ec = .success
      · subst he
        simp only [protocolDetected, checkEc, decide_true, Bool.not_true, Bool.false_eq_true, if_false] at h
        split at h
        · exact sslHandshake_step (.inr ⟨rfl, data, hc⟩) h
        · exact launchHttpSession_step (.inr (.inl ⟨ok, data, rfl, hc⟩)) h
      · obtain rfl : _ = t := by simpa [protocolDetected, he] using h
        exact .sniffFailed hc he
    · cases h
  | registerSession i =>
    obtain ⟨c, kind⟩ := i
    simp only [step, registerSession] at h
    split at h
    · rename_i hc
      obtain ⟨u, hu, rfl⟩ := Option.map_eq_some_iff.1 h
      obtain ⟨r, hr, rfl⟩ := of_act hu
      exact .registerHandshake hc hr
    · rename_i session hc
      split at h
      · obtain ⟨u, hu, rfl⟩ := Option.map_eq_some_iff.1 h
        obtain ⟨r, hr, rfl⟩ := of_act hu
        exact .registerHttp hc ‹_› hr
      · cases h
    · cases h
  | startSession i =>
    obtain ⟨c, kind⟩ := i
    simp only [step, startSession] at h
    split at h
    · rename_i hc
      obtain ⟨u, hu, rfl⟩ := Option.map_eq_some_iff.1 h
      obtain ⟨r, hr, rfl⟩ := of_act hu
      exact .startHandshake hc hr
    · rename_i session hc
      obtain ⟨session', hs, h⟩ := Option.bind_eq_some_iff.1 h
      obtain ⟨u, hu, rfl⟩ := Option.map_eq_some_iff.1 h
      obtain ⟨r, hr, rfl⟩ := of_act hu
      exact .startHttp hc (HttpSession.step_cases hs) hr
    · cases h
  | runHandshake c =>
    simp only [step] at h
    split at h
    · obtain rfl : _ = t := by simpa using h
      exact .handshake ‹_›
    · rename_i ec hc
      by_cases he : ec = .success
      · subst he
        exact launchHttpSession_step (.inr (.inr ⟨rfl, hc⟩)) (by simpa [handshakeResumed] using h)
      · obtain rfl : _ = t := by simpa [handshakeResumed, he] using h
        exact .handshakeFailed hc he
    · cases h
  | handshaken c ec =>
    simp only [step] at h
    split at h
    · obtain rfl : _ = t := by simpa using h
      exact .handshaken ‹_›
    · cases h
  | session c e =>
    simp only [step] at h
    split at h
    · rename_i session hc
      split at h
      · cases h
      · rename_i he
        obtain ⟨session', hs, rfl⟩ := Option.map_eq_some_iff.1 h
        exact .session hc (fun h => he (.inl h)) (fun h => he (.inr h)) (HttpSession.step_cases hs)
    · cases h
  | finish c =>
    simp only [step] at h
    split at h
    · obtain ⟨⟨-, -, hp, hr⟩, rfl⟩ : _ ∧ _ = t := by simpa using h
      exact .finish ‹_› hp hr
    · cases h
  | destroy i =>
    simp only [step] at h
    split at h
    · cases h
    · rename_i hu
      obtain ⟨r, hr, rfl⟩ := of_act h
      exact .destroy (by simpa using hu) hr
  | scheduleShutdown | compareExchange k | collect k | closeAcceptors k =>
    obtain ⟨r, hr, rfl⟩ := of_act h
    exact .shutdown rfl hr
  | stopNext k =>
    simp only [step] at h
    split at h
    · rename_i active i rest hk
      obtain ⟨u, hu, rfl⟩ := Option.map_eq_some_iff.1 h
      obtain ⟨r, hr, rfl⟩ := of_act hu
      exact .stopNext hk hr
    · cases h

end MarketBridge.Server
