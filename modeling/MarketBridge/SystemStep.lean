import MarketBridge.ListenerSpec
import MarketBridge.ServerStep
import MarketBridge.System

/-!
# What one step of the running server can do

Every step is at most one event of the connections, with its step of the registry, and at most two events of
the listeners, whose own step and the one that the connections make in the registry.
-/

namespace MarketBridge

open Lts (Run Det)

theorem Registry.Step.eq {ι : Type} [DecidableEq ι] {r r' : Registry ι} {a : Registry.Action ι}
    (h : Registry.Step r a r') : r.step a = some r' := by
  cases h with
  | construct h => rw [step, if_pos h]
  | register ha hn hp | refuse ha hn hp => rw [step, if_pos ⟨ha, hn⟩, registerSession, hp]; rfl
  | start h hn => rw [step, if_pos ⟨h, hn⟩]
  | destroy ha hh => rw [step, if_pos ⟨ha, hh⟩]
  | scheduleShutdown => rfl
  | lose h hp => rw [step, if_pos h, compareExchange, if_pos hp]
  | win h hp => rw [step, if_pos h, compareExchange, if_neg (by simp [hp])]
  | collect h => rw [step, if_pos h]
  | stopNext h | closeAcceptors h => simp only [step, h]

namespace Server

variable {s t : Server} {e : Event}

theorem stopSession_frame (s : Server) (i : SessionId) :
    (s.stopSession i).cfg = s.cfg ∧ (s.stopSession i).memory = s.memory ∧
      (s.stopSession i).registry = s.registry := by
  unfold stopSession
  split <;> exact ⟨rfl, rfl, rfl⟩

theorem Step.frame (h : Step s e t) : t.cfg = s.cfg ∧ t.memory = s.memory := by
  cases h with
  | @stopNext k active rest i r =>
    obtain ⟨hc, hm, -⟩ := stopSession_frame { s with registry := r } i
    exact ⟨hc, hm⟩
  | _ => exact ⟨rfl, rfl⟩

/-- The registry takes a step or none; the acceptors are closed by `closeAcceptors` only, and a call of
`schedule_shutdown` is an event of its own. -/
theorem Step.registry_step (h : Step s e t) (he : ∀ k, e ≠ .closeAcceptors k) (he' : e ≠ .scheduleShutdown) :
    t.registry = s.registry ∨
      ∃ a, (∀ k, a ≠ .closeAcceptors k) ∧ a ≠ .scheduleShutdown ∧ s.registry.step a = some t.registry := by
  cases h with
  | secure _ hr | launch _ hr | registerHandshake _ hr | registerHttp _ _ hr | startHandshake _ hr
  | startHttp _ _ hr | destroy _ hr => exact .inr ⟨_, by simp, by simp, hr.eq⟩
  | @stopNext k active rest i r _ hr =>
    rw [(stopSession_frame { s with registry := r } i).2.2]
    exact .inr ⟨_, by simp, by simp, hr.eq⟩
  | @shutdown e a r ha hr =>
    refine .inr ⟨a, fun k hk => ?_, fun hk => ?_, hr.eq⟩ <;> subst hk
    · cases e with
      | closeAcceptors k' => exact he k' rfl
      | _ => simp [Event.shutdownAction] at ha
    · cases e with
      | scheduleShutdown => exact he' rfl
      | _ => simp [Event.shutdownAction] at ha
  | _ => exact .inl rfl

end Server

namespace System

variable {s t u : System} {e : Event} {c : ConnId}

theorem server_withServer {server : Server} (hc : server.cfg = s.listeners.cfg) (hm : server.memory = s.memory) :
    (s.withServer server).server = server := by
  obtain ⟨cfg, memory, registry, conns⟩ := server
  obtain rfl : cfg = _ := hc
  obtain rfl : memory = _ := hm
  rfl

theorem of_serverStep {e : Server.Event} (h : s.serverStep e = some t) :
    s.server.step e = some t.server ∧ t = s.withServer t.server := by
  obtain ⟨server, hs, rfl⟩ := Option.map_eq_some_iff.1 h
  obtain ⟨hc, hm⟩ := (Server.step_cases hs).frame
  have he : (s.withServer server).server = server := server_withServer hc hm
  rw [he]
  exact ⟨hs, rfl⟩

theorem of_listenerStep {e : Listeners.Event SessionId} (h : s.listenerStep e = some t) :
    s.listeners.step e = some t.listeners ∧ t = { s with listeners := t.listeners } := by
  obtain ⟨listeners, hl, rfl⟩ := Option.map_eq_some_iff.1 h
  exact ⟨hl, rfl⟩

/-- The events of the connections that an event of the system can be. -/
inductive Shows : Event → List Server.Event → Prop
  | tick {now : ℚ} : Shows (.tick now) []
  | accepted {p : Port} {c : ConnId} : Shows (.accepted p c) [.accept c p]
  | dispatch {p : Port} {files : TlsFiles} {c : ConnId} {ok : Bool} : Shows (.dispatch p files) [.runListener c ok]
  | runSniff {c : ConnId} {files : TlsFiles} {ok : Bool} : Shows (.runSniff c files) [.runSniff c ok]
  | runStart {c : ConnId} {ok : Bool} : Shows (.runStart c ok) [.session c (.runStart ok)]
  | timerExpires {c : ConnId} : Shows (.timerExpires c) [.session c .timerExpires]
  | runHeader {c : ConnId} {allowed : Bool} : Shows (.runHeader c) [.session c (.runHeader allowed)]
  | closeAcceptors {k : Nat} : Shows (.closeAcceptors k) [.closeAcceptors k]
  | listener {e : Listeners.Event SessionId} : Shows (.listener e) []
  | signal : Shows (.listener .runSignalHandler) [.scheduleShutdown]
  | server {e : Server.Event} (he : e.isShared = false) : Shows (.server e) [e]

inductive Step (s : System) : Event → System → Prop
  | tick {now : ℚ} (h : s.now ≤ now) : Step s (.tick now) { s with now }
  | accepted {p : Port} {c : ConnId} {listeners : Listeners SessionId} {t : System}
      (hl : s.listeners.step (.accepted p .success) = some listeners)
      (ht : serverStep { s with listeners, sockets := Function.update s.sockets p (some c) } (.accept c p) =
        some t) :
      Step s (.accepted p c) t
  | dispatch {p : Port} {files : TlsFiles} {c : ConnId} {listeners : Listeners SessionId} {t : System}
      (hc : s.sockets p = some c) (hl : s.listeners.step (.dispatch p) = some listeners)
      (ht : completionHandler { s with listeners, sockets := Function.update s.sockets p none } p c files =
        some t) :
      Step s (.dispatch p files) t
  | runSniff {c : ConnId} {files : TlsFiles} {t : System} (hd : s.server.detectsTls c = false)
      (ht : s.serverStep (.runSniff c true) = some t) : Step s (.runSniff c files) t
  | runSniffTls {c : ConnId} {files : TlsFiles} {t : System} (hd : s.server.detectsTls c = true)
      (ht : s.sslHandshake files (.runSniff c) = some t) : Step s (.runSniff c files) t
  | runStart {c : ConnId} {ok : Bool} {t : System}
      (ht : serverStep { s with timers := if ok then Function.update s.timers c (some s.now) else s.timers }
        (.session c (.runStart ok)) = some t) : Step s (.runStart c ok) t
  | timerExpires {c : ConnId} {start : ℚ} {t : System} (hc : s.timers c = some start)
      (hn : start + headerTimeout ≤ s.now) (ht : s.serverStep (.session c .timerExpires) = some t) :
      Step s (.timerExpires c) t
  | decide {c : ConnId} {session : HttpSession} {t : System} (hc : s.conns c = .http session)
      (ha : session.asksLimiter = true)
      (ht : (s.allow c).2.serverStep (.session c (.runHeader (s.allow c).1)) = some t) : Step s (.runHeader c) t
  | runHeader {c : ConnId} {session : HttpSession} {t : System} (hc : s.conns c = .http session)
      (ha : session.asksLimiter = false) (ht : s.serverStep (.session c (.runHeader true)) = some t) :
      Step s (.runHeader c) t
  | closeAcceptors {k : Nat} {t : System} (ht : s.listenerStep (.registry (.closeAcceptors k)) = some t) :
      Step s (.closeAcceptors k) t
  | listener {e : Listeners.Event SessionId} {t : System} (he : e.isShared = false)
      (ht : s.listenerStep e = some t) : Step s (.listener e) t
  | server {e : Server.Event} {t : System} (he : e.isShared = false) (ht : s.serverStep e = some t) :
      Step s (.server e) t

theorem step_cases (h : step s e = some t) : Step s e t := by
  cases e with
  | tick now =>
    obtain ⟨hn, rfl⟩ : _ ∧ _ = t := by simpa [step] using h
    exact .tick hn
  | accepted p c =>
    obtain ⟨u, hu, ht⟩ := Option.bind_eq_some_iff.1 h
    obtain ⟨listeners, hl, rfl⟩ := Option.map_eq_some_iff.1 hu
    exact .accepted hl ht
  | dispatch p files =>
    simp only [step] at h
    split at h
    · rename_i c hc
      obtain ⟨u, hu, ht⟩ := Option.bind_eq_some_iff.1 h
      obtain ⟨listeners, hl, rfl⟩ := Option.map_eq_some_iff.1 hu
      exact .dispatch hc hl ht
    · cases h
  | runSniff c files =>
    simp only [step] at h
    split at h
    · rename_i hd
      exact .runSniffTls hd h
    · rename_i hd
      exact .runSniff (by simpa using hd) h
  | runStart c ok => exact .runStart h
  | timerExpires c =>
    simp only [step] at h
    split at h
    · rename_i start hc
      split at h
      · exact .timerExpires hc ‹_› h
      · cases h
    · cases h
  | runHeader c =>
    simp only [step] at h
    split at h
    · rename_i session hc
      split at h
      · exact .decide hc ‹_› h
      · rename_i ha
        exact .runHeader hc (by simpa using ha) h
    · cases h
  | closeAcceptors k => exact .closeAcceptors h
  | listener e =>
    simp only [step] at h
    split at h
    · cases h
    · rename_i he
      exact .listener (by simpa using he) h
  | server e =>
    simp only [step] at h
    split at h
    · cases h
    · rename_i he
      exact .server (by simpa using he) h

end System

/-! ### The parts of a step -/

namespace Listeners

variable {s t : Listeners SessionId} {e : Listeners.Event SessionId}

/-- An event of the listeners alone leaves the registry, except for the signal handler. -/
theorem Step.own (h : Step s e t) (he : ∀ a, e ≠ .registry a) : t.registry = s.registry ∨
    e = .runSignalHandler ∧ s.registry.step .scheduleShutdown = some t.registry := by
  cases h with
  | runSignalHandler _ hr => exact .inr ⟨rfl, hr⟩
  | closeAcceptors | registry => exact absurd rfl (he _)
  | uninstallHttp => exact .inl (uninstallListener_registry s .http)
  | uninstallHttps => exact .inl (uninstallListener_registry s .https)
  | _ => exact .inl rfl

/-- An accept completes or a signal comes. -/
def Event.fromOutside {ι : Type} : Event ι → Bool
  | .accepted .. | .signal => true
  | _ => false

theorem Event.ne_registry (he : e.isShared = false) (a : Registry.Action SessionId) : e ≠ .registry a := by
  rintro rfl
  simp [Event.isShared] at he

end Listeners

namespace System

variable {s t : System} {e : Event}

theorem server_eq (hc : t.listeners.cfg = s.listeners.cfg) (hr : t.listeners.registry = s.listeners.registry)
    (hm : t.memory = s.memory) (hn : t.conns = s.conns) : t.server = s.server := by
  simp only [server, hc, hr, hm, hn]

/-- A listener has taken a step of its own that leaves the registry. -/
theorem server_listeners {listeners : Listeners SessionId} {l : Listeners.Event SessionId}
    (hl : s.listeners.step l = some listeners) (he : ∀ a, l ≠ .registry a) (he' : l ≠ .runSignalHandler)
    (sockets : Port → Option ConnId) : ({ s with listeners, sockets } : System).server = s.server := by
  have hst := Listeners.step_cases hl
  refine server_eq hst.cfg ?_ rfl rfl
  rcases hst.own he with hr | ⟨hs, -⟩
  · exact hr
  · exact absurd hs he'

theorem run_serverStep {u : System} {e : Server.Event} (h : u.serverStep e = some t) (hu : u.server = s.server) :
    Run (Det Server.step) s.server [e] t.server := hu ▸ .single (of_serverStep h).1

/-- What `ssl_context_initialized` becomes in a call of `ssl_handshake`. -/
theorem of_sslHandshake {files : TlsFiles} {e : Bool → Server.Event} (h : s.sslHandshake files e = some t) :
    serverStep { s with sslContext := (s.sslContext.prepare (initSslContext s.listeners.cfg.tls files)).2 }
      (e (s.sslContext.prepare (initSslContext s.listeners.cfg.tls files)).1) = some t := h

theorem run_completionHandler {p : Port} {c : ConnId} {files : TlsFiles}
    (h : s.completionHandler p c files = some t) :
    ∃ ok, Run (Det Server.step) s.server [.runListener c ok] t.server := by
  cases p with
  | http => exact ⟨true, run_serverStep h rfl⟩
  | https => exact ⟨_, run_serverStep (of_sslHandshake h) rfl⟩

theorem Step.server_run (h : Step s e t) : ∃ bs, Shows e bs ∧ Run (Det Server.step) s.server bs t.server := by
  cases h with
  | tick => exact ⟨[], .tick, .nil _⟩
  | accepted hl ht =>
    exact ⟨_, .accepted, run_serverStep ht (server_listeners hl (by simp) (by simp) _)⟩
  | dispatch _ hl ht =>
    obtain ⟨ok, hr⟩ := run_completionHandler ht
    rw [server_listeners hl (by simp) (by simp)] at hr
    exact ⟨_, .dispatch, hr⟩
  | runSniff _ ht => exact ⟨_, .runSniff, run_serverStep ht rfl⟩
  | runSniffTls _ ht => exact ⟨_, .runSniff, run_serverStep (of_sslHandshake ht) rfl⟩
  | runStart ht => exact ⟨_, .runStart, run_serverStep ht rfl⟩
  | timerExpires _ _ ht => exact ⟨_, .timerExpires, run_serverStep ht rfl⟩
  | decide _ _ ht => exact ⟨_, .runHeader, run_serverStep ht rfl⟩
  | runHeader _ _ ht => exact ⟨_, .runHeader, run_serverStep ht rfl⟩
  | @closeAcceptors k t ht =>
    obtain ⟨hl, ht⟩ := of_listenerStep ht
    obtain ⟨l', hl', hl''⟩ := Option.map_eq_some_iff.1 hl
    obtain ⟨r, hr, rfl⟩ := Listeners.act_eq_some hl'
    refine ⟨_, .closeAcceptors, .single ?_⟩
    have hserver : t.server = { s.server with registry := r } := by rw [ht, ← hl'']; rfl
    rw [hserver]
    exact congrArg (Option.map _) hr
  | @listener l t he ht =>
    obtain ⟨hl, ht⟩ := of_listenerStep ht
    have hst := Listeners.step_cases hl
    have hc : t.listeners.cfg = s.listeners.cfg := hst.cfg
    have hm : t.memory = s.memory := by rw [ht]
    have hn : t.conns = s.conns := by rw [ht]
    rcases hst.own (Listeners.Event.ne_registry he) with hr | ⟨rfl, hr⟩
    · refine ⟨[], .listener, ?_⟩
      rw [server_eq hc hr hm hn]
      exact .nil _
    · refine ⟨_, .signal, .single ?_⟩
      have hserver : t.server = { s.server with registry := t.listeners.registry } := by
        simp only [System.server, hc, hm, hn]
      rw [hserver]
      exact congrArg (Option.map fun registry => { s.server with registry }) hr
  | server he ht => exact ⟨_, .server he, run_serverStep ht rfl⟩

/-- What of an event the listeners hear of: an accept or a signal. -/
def Event.heard : Event → Option (Listeners.Event SessionId)
  | .accepted p _ => some (.accepted p .success)
  | .listener (.accepted p ec) => some (.accepted p ec)
  | .listener .signal => some .signal
  | _ => none

theorem Event.heard_inv {l : Listeners.Event SessionId} (h : e.heard = some l) :
    e = .listener l ∨ ∃ p c, e = .accepted p c ∧ l = .accepted p .success := by
  cases e with
  | accepted p c => exact .inr ⟨p, c, rfl, (Option.some.inj h).symm⟩
  | listener l' =>
    cases l' with
    | accepted | signal => exact .inl (congrArg Event.listener (Option.some.inj h))
    | _ => cases h
  | _ => cases h

/-- The events of the listeners that an event of the system can be, one of which comes from outside if `o` is one;
`schedule_shutdown` is called by the signal handler alone. -/
def Hears (o : Option (Listeners.Event SessionId)) (ls : List (Listeners.Event SessionId)) : Prop :=
  ls.filter (·.fromOutside) = o.toList ∧ .registry .scheduleShutdown ∉ ls

theorem Hears.nil : Hears none [] := ⟨rfl, List.not_mem_nil⟩

theorem Hears.own {l : Listeners.Event SessionId} {ls : List (Listeners.Event SessionId)} (h : Hears none ls)
    (hl : l.fromOutside = false) (hn : l ≠ .registry .scheduleShutdown) : Hears none (l :: ls) := by
  refine ⟨?_, List.not_mem_cons_of_ne_of_not_mem hn.symm h.2⟩
  rw [List.filter_cons_of_neg (by simp [hl])]
  exact h.1

theorem Hears.outside {l : Listeners.Event SessionId} {ls : List (Listeners.Event SessionId)} (h : Hears none ls)
    (hl : l.fromOutside = true) : Hears (some l) (l :: ls) := by
  refine ⟨?_, List.not_mem_cons_of_ne_of_not_mem (by rintro rfl; cases hl) h.2⟩
  rw [List.filter_cons_of_pos hl, h.1]
  rfl

/-- The listeners see the registry's step of an event of the connections. -/
theorem run_listeners_serverStep {u : System} {e' : Server.Event} (h : u.serverStep e' = some t)
    (hu : u.listeners = s.listeners) (he : ∀ k, e' ≠ .closeAcceptors k) (he' : e' ≠ .scheduleShutdown) :
    ∃ ls, Hears none ls ∧ Run (Det Listeners.step) s.listeners ls t.listeners := by
  obtain ⟨hs, ht⟩ := of_serverStep h
  have hl : t.listeners = { u.listeners with registry := t.server.registry } := congrArg System.listeners ht
  rw [← hu]
  rcases (Server.step_cases hs).registry_step he he' with hr | ⟨a, ha, ha', hr⟩
  · refine ⟨[], .nil, ?_⟩
    rw [hl, hr]
    exact .nil _
  · refine ⟨[.registry a], Hears.nil.own rfl (by simpa using ha'), .single ?_⟩
    rw [hl]
    exact (Listeners.Step.registry ha hr).eq

theorem run_listeners_completionHandler {p : Port} {c : ConnId} {files : TlsFiles}
    (h : s.completionHandler p c files = some t) :
    ∃ ls, Hears none ls ∧ Run (Det Listeners.step) s.listeners ls t.listeners := by
  cases p with
  | http => exact run_listeners_serverStep h rfl (by simp) (by simp)
  | https => exact run_listeners_serverStep (of_sslHandshake h) rfl (by simp) (by simp)

theorem Step.listeners_run (h : Step s e t) :
    ∃ ls, Hears e.heard ls ∧ Run (Det Listeners.step) s.listeners ls t.listeners := by
  cases h with
  | tick => exact ⟨[], .nil, .nil _⟩
  | accepted hl ht =>
    obtain ⟨ls, hh, hr⟩ := run_listeners_serverStep ht rfl (by simp) (by simp)
    exact ⟨_ :: ls, hh.outside rfl, .cons hl hr⟩
  | dispatch _ hl ht =>
    obtain ⟨ls, hh, hr⟩ := run_listeners_completionHandler ht
    exact ⟨_ :: ls, hh.own rfl (by simp), .cons hl hr⟩
  | runSniff _ ht | timerExpires _ _ ht | runHeader _ _ ht =>
    exact run_listeners_serverStep ht rfl (by simp) (by simp)
  | runSniffTls _ ht => exact run_listeners_serverStep (of_sslHandshake ht) rfl (by simp) (by simp)
  | runStart ht => exact run_listeners_serverStep ht rfl (by simp) (by simp)
  | decide _ _ ht => exact run_listeners_serverStep ht rfl (by simp) (by simp)
  | closeAcceptors ht => exact ⟨_, Hears.nil.own rfl (by simp), .single (of_listenerStep ht).1⟩
  | @listener l t he ht =>
    refine ⟨[l], ?_, .single (of_listenerStep ht).1⟩
    cases l with
    | accepted | signal => exact Hears.nil.outside rfl
    | _ => exact Hears.nil.own rfl (Listeners.Event.ne_registry he _)
  | @server e t he ht =>
    refine run_listeners_serverStep ht rfl (fun k hk => ?_) fun hk => ?_ <;> subst hk
    · simp [Server.Event.isShared] at he
    · simp [Server.Event.isShared] at he

end System

end MarketBridge
