import MarketBridge.DrainSpec
import MarketBridge.TeardownSpec
import MarketBridge.TimeoutSpec

/-!
# When the server comes to an end

Whatever the order in which the listeners are taken down, once nothing can happen any more, either nothing is left
of the server, and `io_.run()` returns in every worker thread, or nothing has been taken down at all, and the
server waits for its next connection. The completion of an operation by a peer counts as something that can
happen. `close_acceptors` destroys the acceptors while the listeners keep references to them; a run in which an
accept is started on a destroyed one has no meaning, and `Holding` leaves it out.
-/

namespace MarketBridge

open Lts (Run Det Guarded Ranked)

theorem HttpSession.Step.armed {s t : HttpSession} {e : HttpSession.Event} (h : HttpSession.Step s e t)
    (ht : t.timer = .armed) : s.timer = .armed ∨ e = .runStart true := by
  have hcancel : ∀ timer : HeaderTimer, timer.cancel = .armed → timer = .armed := by
    intro timer hc
    cases timer <;> simp_all [HeaderTimer.cancel]
  have hstop : ∀ s : HttpSession, s.stopHandler.timer = s.timer := by
    intro s
    rcases stopHandler_cases s with ⟨-, he⟩ | ⟨-, he⟩ <;> rw [he] <;> rfl
  cases h with
  | timerExpires | timerCancelled | timerFired => cases ht
  | obtainHeader => exact .inr rfl
  | headerDropped | disallow | health | forward => exact .inl (hcancel _ ht)
  | timeoutFailed => exact .inl ((hstop s).symm.trans ht)
  | @runStop n => exact .inl ((hstop { s with stops := n }).symm.trans ht)
  | _ => exact .inl ht

namespace System

variable {s t u : System} {e : Event} {as : List Event} {cfg : Config} {memory : ConnId → Bytes} {now : ℚ}
  {c : ConnId} {cs : Finset ConnId}

/-- A wait that is on has a time to expire at. -/
def Armed (s : System) : Prop := ∀ c session, s.conns c = .http session → session.timer = .armed →
  ∃ start, s.timers c = some start

theorem Armed.step (hi : s.Armed) (h : Step s e t) : t.Armed := by
  intro c session hc hs
  have hkept : ∀ start, s.timers c = some start → ∃ start, t.timers c = some start := by
    intro start hstart
    rcases h.timers.2 with ⟨ht, -⟩ | ⟨c', -, ht⟩ <;> rw [ht]
    · exact ⟨start, hstart⟩
    · rcases eq_or_ne c c' with rfl | hne
      · exact ⟨_, Function.update_self ..⟩
      · exact ⟨start, (Function.update_of_ne hne ..).trans hstart⟩
  obtain ⟨event, hmoves, hevent⟩ := h.moves c
  rw [hc] at hmoves
  generalize hs' : s.conns c = conn at hmoves
  cases hmoves with
  | stays =>
    obtain ⟨start, hstart⟩ := hi c session hs' hs
    exact hkept start hstart
  | early _ _ hn =>
    rw [hn session rfl] at hs
    cases hs
  | @session session₀ _ e' hst he =>
    rcases hst.armed hs with ha | rfl
    · obtain ⟨start, hstart⟩ := hi c session₀ hs' ha
      exact hkept start hstart
    · obtain rfl := (hevent _ (by simpa using he)).runStart_inv
      rcases h.timers.2 with ⟨-, hne⟩ | ⟨c', he', ht⟩
      · exact absurd rfl (hne c)
      · obtain ⟨rfl, -⟩ := Event.runStart.inj he'
        exact ⟨_, (congrFun ht c).trans (Function.update_self ..)⟩

/-- A listener to whom a socket has been given holds it until it passes it on. -/
def Filled (s : System) : Prop := ∀ p, (s.listeners.tasks p).InHand → ∃ c, s.sockets p = some c

theorem Filled.new : (new cfg memory now).Filled := by
  intro p hp
  have hloop : (if hasAcceptor cfg p then ListenerTask.loop else .returned).InHand := hp
  split at hloop <;> rcases hloop with h | h <;> cases h

theorem Step.of_inHand {p : Port} (h : Step s e t) (hp : (t.listeners.tasks p).InHand)
    (he : ∀ c, e ≠ .accepted p c) : (s.listeners.tasks p).InHand := by
  rcases h.tasks with htasks | ⟨l, u, hl, htasks, ha, -⟩ <;> rw [htasks] at hp
  · exact hp
  · rcases (Listeners.step_cases hl).of_inHand hp with ⟨hu, -⟩ | rfl
    · exact hu
    · obtain ⟨c, hc⟩ := ha p rfl
      exact absurd hc (he c)

theorem Step.dispatch_inv {p : Port} {files : TlsFiles} (h : Step s (.dispatch p files) t) :
    ¬ (t.listeners.tasks p).InHand := by
  cases h with
  | @dispatch _ _ c listeners t hc hl ht =>
    have htasks : t.listeners.tasks = listeners.tasks := by
      cases p with
      | http => exact tasks_serverStep ht
      | https => exact tasks_serverStep (of_sslHandshake ht)
    intro hp
    rw [htasks] at hp
    rcases (Listeners.step_cases hl).of_inHand hp with ⟨-, hu⟩ | hu
    · exact hu rfl
    · cases hu

theorem Filled.step (hi : s.Filled) (h : Step s e t) : t.Filled := by
  intro p hp
  cases h.socketStep with
  | @accepted q c he ht =>
    subst he
    rw [ht]
    rcases eq_or_ne p q with rfl | hne
    · exact ⟨c, Function.update_self ..⟩
    · rw [Function.update_of_ne hne]
      exact hi p (h.of_inHand hp (by simp [hne.symm]))
  | @dispatch q files c ok he hc ht =>
    subst he
    rw [ht]
    rcases eq_or_ne p q with rfl | hne
    · exact absurd hp h.dispatch_inv
    · rw [Function.update_of_ne hne]
      exact hi p (h.of_inHand hp (by simp))
  | other ha hd ht =>
    rw [ht]
    exact hi p (h.of_inHand hp (ha p))

/-! ### The length of a run -/

/-- What comes from outside: a connection, a chunk, a signal, a failed accept, and the time that passes. -/
def Event.gain : Event → Nat
  | .tick _ => 1
  | .accepted .. => 45
  | .listener (.accepted ..) => 5
  | .listener .signal => 1
  | .server e => e.gain
  | _ => 0

def rank (cs : Finset ConnId) (s : System) : Nat := s.server.rank cs + s.listeners.rank

/-- Only the connections `cs` are accepted. -/
def Within (cs : Finset ConnId) (_ : System) (e : Event) : Prop := ∀ p c, e = .accepted p c → c ∈ cs

theorem listeners_serverStep {e : Server.Event} (h : s.serverStep e = some t) :
    t.listeners.rank = s.listeners.rank := by
  rw [(of_serverStep h).2]
  rfl

/-- The connections go on while the listeners stay where they are. -/
theorem lowers_serverStep {e : Server.Event} (hi : s.server.Counted cs) (hu : u.server = s.server)
    (hw : s.server.Within cs e) (h : u.serverStep e = some t) :
    t.rank cs + 1 ≤ s.server.rank cs + u.listeners.rank + e.gain := by
  have hs := (of_serverStep h).1
  rw [hu] at hs
  have hl := (Server.step_cases hs).lowers hi hw
  rw [rank, listeners_serverStep h]
  omega

theorem lowers_completionHandler {p : Port} {files : TlsFiles} (hi : s.server.Counted cs)
    (hu : u.server = s.server) (h : u.completionHandler p c files = some t) :
    t.rank cs + 1 ≤ s.server.rank cs + u.listeners.rank := by
  cases p with
  | http => exact lowers_serverStep hi hu (by simp [Server.Within]) h
  | https =>
    have hu' : System.server { u with
      sslContext := (u.sslContext.prepare (initSslContext u.listeners.cfg.tls files)).2 } = s.server := hu
    exact lowers_serverStep hi hu' (by simp [Server.Within]) (of_sslHandshake h)

/-- An event of the listeners alone, and the call of `schedule_shutdown` that the signal handler makes. -/
theorem Step.server_rank_listener {l : Listeners.Event SessionId} (hi : s.server.Counted cs)
    (h : Step s (.listener l) t) : t.server.rank cs + 1 ≤ s.server.rank cs + l.price := by
  rcases h.server_step with he | ⟨e', hb, hs⟩
  · rw [he]
    cases l <;> simp [Listeners.Event.price]
  · cases hb with
    | signal =>
      have hl := (Server.step_cases hs).lowers hi (by simp [Server.Within])
      simp only [Server.Event.gain, Listeners.Event.price] at hl ⊢
      omega

theorem Step.lowers (hi : s.server.Counted cs) (hw : s.Within cs e) (h : Step s e t) :
    t.rank cs + 1 ≤ s.rank cs + e.gain := by
  cases h with
  | tick => exact le_rfl
  | @accepted p c listeners t hl ht =>
    have hlist := (Listeners.step_cases hl).lowers (by simp)
    have hserver := server_listeners hl (by simp) (by simp) (Function.update s.sockets p (some c))
    have hlow := lowers_serverStep hi hserver (fun c' p' he => ?_) ht
    · simp only [rank, Event.gain, Server.Event.gain, Listeners.Event.price, Listeners.Event.gain] at hlist hlow ⊢
      omega
    · obtain ⟨rfl, rfl⟩ := Server.Event.accept.inj he
      exact hw _ _ rfl
  | @dispatch p files c listeners t hc hl ht =>
    have hlist := (Listeners.step_cases hl).lowers (by simp)
    have hserver := server_listeners hl (by simp) (by simp) (Function.update s.sockets p none)
    have hlow := lowers_completionHandler hi hserver ht
    simp only [rank, Event.gain, Listeners.Event.price, Listeners.Event.gain] at hlist hlow ⊢
    omega
  | runSniff _ ht | timerExpires _ _ ht | runHeader _ _ ht =>
    exact lowers_serverStep hi rfl (by simp [Server.Within]) ht
  | runStart ht | decide _ _ ht =>
    have hlow := lowers_serverStep hi (by rfl) (by simp [Server.Within]) ht
    exact hlow
  | runSniffTls _ ht =>
    have hlow := lowers_serverStep hi (by rfl) (by simp [Server.Within]) (of_sslHandshake ht)
    exact hlow
  | closeAcceptors ht =>
    have hlist := (Listeners.step_cases (of_listenerStep ht).1).rank_closeAcceptors
    obtain ⟨bs, hb, hr⟩ := (Step.closeAcceptors ht).server_run
    cases hb
    have hlow := (Server.step_cases (by simpa using Lts.run_det_iff.1 hr)).lowers hi (by simp [Server.Within])
    simp only [rank, Event.gain, Server.Event.gain] at hlow ⊢
    omega
  | @listener l t he ht =>
    have hlist := (Listeners.step_cases (of_listenerStep ht).1).lowers (Listeners.Event.ne_registry he)
    have hlow := Step.server_rank_listener hi (.listener he ht)
    have hg : l.gain ≤ Event.gain (.listener l) := by cases l <;> simp [Listeners.Event.gain, Event.gain]
    simp only [rank] at hlist hlow ⊢
    omega
  | server he ht =>
    refine lowers_serverStep hi rfl (fun c p hc => ?_) ht
    subst hc
    simp [Server.Event.isShared] at he

/-! ### Nothing can happen any more -/

/-- No event is possible but what comes from outside: no handler is ready, and no completion by a peer is awaited,
since such a completion has no gain. -/
def Stuck (s : System) : Prop := ∀ e : Event, e.gain = 0 → s.step e = none

/-- Every wait for a header has expired. -/
def Due (s : System) : Prop := ∀ c start, s.timers c = some start → start + headerTimeout ≤ s.now

/-- What the connections, the sockets and the timers keep. -/
structure Standing (s : System) : Prop where
  live : s.server.Live
  holds : s.Holds
  filled : s.Filled
  armed : s.Armed

theorem Standing.new : (new cfg memory now).Standing where
  live := .new
  holds := .new
  filled := .new
  armed _ _ h := by simp [System.new] at h

theorem Standing.step (hi : s.Standing) (h : Step s e t) : t.Standing := by
  refine ⟨?_, hi.holds.step h, hi.filled.step h, hi.armed.step h⟩
  rcases h.server_step with he | ⟨e', -, hs⟩
  · exact he ▸ hi.live
  · exact hi.live.step (Server.step_cases hs)

theorem sslHandshake_ne_none {e : Bool → Server.Event} (h : ∀ ok, s.server.step (e ok) ≠ none) (files : TlsFiles) :
    s.sslHandshake files e ≠ none := by
  intro hn
  have hn : System.serverStep { s with
    sslContext := (s.sslContext.prepare (initSslContext s.listeners.cfg.tls files)).2 } _ = none := hn
  rw [System.serverStep, Option.map_eq_none_iff] at hn
  exact h _ hn

theorem serverStep_ne_none {e : Server.Event} (hu : u.server = s.server) (h : s.server.step e ≠ none) :
    u.serverStep e ≠ none := by
  rw [serverStep, hu, ne_eq, Option.map_eq_none_iff]
  exact h

theorem completionHandler_ne_none {p : Port} (hi : s.server.Live) (hc : s.conns c = .accepted p)
    (hu : u.server = s.server) (files : TlsFiles) : u.completionHandler p c files ≠ none := by
  cases p with
  | http => exact serverStep_ne_none hu (hi.runListener hc true)
  | https => exact sslHandshake_ne_none (fun ok => hu ▸ hi.runListener hc ok) files

/-- A listener that has a connection in hand can go on. -/
theorem Stuck.not_inHand {p : Port} (hi : s.Standing) (h : s.Stuck) : ¬ (s.listeners.tasks p).InHand := by
  intro hp
  obtain ⟨c, hc⟩ := hi.filled p hp
  rcases hp with hp | hp
  · have hn := h (.listener (.resume p)) rfl
    simp [step, Listeners.Event.isShared, listenerStep, Listeners.step, hp] at hn
  · obtain ⟨listeners, hl⟩ : ∃ listeners, s.listeners.step (.dispatch p) = some listeners := by
      simp [Listeners.step, hp]
    have hn := h (.dispatch p ⟨true, true⟩) rfl
    simp only [step, hc, listenerStep, hl, Option.map_some, Option.bind_some] at hn
    refine completionHandler_ne_none hi.live ((hi.holds.sockets p c).1 hc) ?_ _ hn
    exact server_listeners hl (by simp) (by simp) _

theorem Stuck.serverStep (h : s.Stuck) {e : Server.Event} (he : e.gain = 0) (hs : e.isShared = false) :
    s.server.step e = none := by
  have hn := h (.server e) he
  simp only [step, hs, Bool.false_eq_true, if_false, System.serverStep, Option.map_eq_none_iff] at hn
  exact hn

/-- The events of a session that the clock, the limiter and the SSL context take part in. -/
theorem Stuck.sharedSession {e : HttpSession.Event} (hi : s.Standing) (h : s.Stuck) (hd : s.Due)
    (he : Server.Event.isShared (.session c e) = true) : s.server.step (.session c e) = none := by
  by_contra hne
  obtain ⟨t, ht⟩ := Option.ne_none_iff_exists'.1 hne
  obtain ⟨session, session', hc, hs, -⟩ := Server.session_inv ht
  have hc : s.conns c = .http session := hc
  cases e with
  | runStart ok =>
    have hn := h (.runStart c ok) rfl
    rw [step] at hn
    exact serverStep_ne_none (by rfl) hne hn
  | timerExpires =>
    have harmed : session.timer = .armed := by
      cases HttpSession.step_cases hs with
      | timerExpires h => exact h
    obtain ⟨start, hstart⟩ := hi.armed c session hc harmed
    have hn := h (.timerExpires c) rfl
    simp only [step, hstart, if_pos (hd c start hstart)] at hn
    exact serverStep_ne_none rfl hne hn
  | runHeader allowed =>
    have hany : ∀ allowed, s.server.step (.session c (.runHeader allowed)) ≠ none := by
      intro allowed'
      cases HttpSession.step_cases hs with
      | headerFailed h | headerDropped h | disallow h | health h | forward h =>
        simp [Server.step, show s.server.conns c = .http session from hc, HttpSession.step, h]
    have hn := h (.runHeader c) rfl
    simp only [step, hc] at hn
    split at hn
    · exact serverStep_ne_none (u := (s.allow c).2) rfl (hany _) hn
    · exact serverStep_ne_none rfl (hany _) hn
  | _ => simp [Server.Event.isShared] at he

theorem Stuck.server (hi : s.Standing) (h : s.Stuck) (hd : s.Due) : s.server.Stuck := by
  intro e he
  cases hs : e.isShared with
  | false => exact h.serverStep he hs
  | true =>
    cases e with
    | session c e => exact h.sharedSession hi hd hs
    | runListener c ok =>
      by_contra hne
      obtain ⟨p, hp⟩ : ∃ p, s.conns c = .accepted p := by
        cases hc : s.conns c <;> simp [Server.step, show s.server.conns c = _ from hc] at hne ⊢
      exact h.not_inHand hi (hi.holds.inHand p c ((hi.holds.sockets p c).2 hp))
    | runSniff c ok =>
      by_contra hne
      obtain ⟨r, hr⟩ : ∃ r, s.conns c = .sniffing (.ready r) := by
        cases hc : s.conns c with
        | sniffing op => cases op <;> simp [Server.step, show s.server.conns c = _ from hc] at hne ⊢
        | _ => simp [Server.step, show s.server.conns c = _ from hc] at hne
      have hn := h (.runSniff c ⟨true, true⟩) rfl
      simp only [step] at hn
      split at hn
      · exact sslHandshake_ne_none (hi.live.runSniff hr) _ hn
      · exact serverStep_ne_none rfl (hi.live.runSniff hr true) hn
    | closeAcceptors k =>
      have hn := h (.closeAcceptors k) rfl
      simp only [step, listenerStep, Listeners.step, Listeners.act, Option.map_eq_none_iff] at hn
      simp only [Server.step, Server.act, Option.map_eq_none_iff]
      exact hn
    | accept => simp [Server.Event.gain] at he
    | scheduleShutdown => simp [Server.Event.gain] at he
    | _ => simp [Server.Event.isShared] at hs

theorem Stuck.tasks (hi : s.Standing) (h : s.Stuck) (p : Port) :
    s.listeners.tasks p = .accepting .pending ∨ s.listeners.tasks p = .returned := by
  have hn : ∀ l : Listeners.Event SessionId, Event.gain (.listener l) = 0 → l.isShared = false →
      s.listeners.step l = none := by
    intro l hl hs
    have hn := h (.listener l) hl
    simp only [step, hs, Bool.false_eq_true, if_false, listenerStep, Option.map_eq_none_iff] at hn
    exact hn
  cases hp : s.listeners.tasks p with
  | loop => simpa [Listeners.step, hp] using hn (.checkShutdown p) rfl rfl
  | starting => simpa [Listeners.step, hp] using hn (.startAccept p) rfl rfl
  | accepting op =>
    cases op with
    | pending => exact .inl rfl
    | ready ec => simpa [Listeners.step, hp] using hn (.resume p) rfl rfl
  | handling => exact absurd (.inr hp) (h.not_inHand hi)
  | leaving => simpa [Listeners.step, hp] using hn (.cancelSignals p) rfl rfl
  | uninstalling q => cases q <;> simpa [Listeners.step, hp] using hn (.uninstall p) rfl rfl
  | returned => exact .inr rfl

theorem Stuck.signals (h : s.Stuck) : s.listeners.signals = none ∨ s.listeners.signals = some .pending := by
  have hn := h (.listener .runSignalHandler) rfl
  rcases hs : s.listeners.signals with _ | _ | ec
  · exact .inl rfl
  · exact .inr rfl
  · simp only [step, Listeners.Event.isShared, Bool.false_eq_true, if_false, listenerStep, Listeners.step, hs] at hn
    split at hn <;> simp [Listeners.act, Registry.step] at hn

/-- Nothing that `io_` waits for is left: `Server::run` returns. -/
structure Finished (s : System) : Prop where
  atRest : s.server.AtRest
  signals : s.listeners.signals = none
  tasks : ∀ p, s.listeners.tasks p = .returned

/-- Nothing has been taken down: the signal handler is installed, and every acceptor is open with an accept that
is pending on it, unless the system has aborted one. -/
structure Waiting (as : List Event) (s : System) : Prop where
  atRest : s.server.AtRest
  calls : s.listeners.registry.calls = []
  signals : s.listeners.signals = some .pending
  accepting : ∀ p, hasAcceptor s.listeners.cfg p = true → .listener (.accepted p .operationAborted) ∉ as →
    s.listeners.tasks p = .accepting .pending ∧ s.listeners.isOpen p = true

/-- A server that has finished does nothing more. -/
theorem Finished.stuck (h : s.Finished) : s.Stuck := by
  have hserver := h.atRest.stuck
  have hconn : ∀ c session, s.conns c ≠ .http session := by
    intro c session hc
    rcases h.atRest.conns c with hr | hr <;> cases hc.symm.trans hr
  intro e he
  cases e with
  | tick | accepted => cases he
  | dispatch p files =>
    simp only [step, listenerStep, Listeners.step, h.tasks p, Option.map_none, Option.bind_none]
    split <;> rfl
  | runSniff c files =>
    have hd : s.server.detectsTls c = false := by
      rcases h.atRest.conns c with hc | hc <;> simp [Server.detectsTls, hc]
    simp [step, hd, serverStep, hserver (.runSniff c true) rfl]
  | runStart c ok =>
    have hn := hserver (.session c (.runStart ok)) rfl
    exact Option.map_eq_none_iff.2 hn
  | timerExpires c =>
    have hn := hserver (.session c .timerExpires) rfl
    simp only [step, serverStep, hn, Option.map_none, ite_self]
    split <;> rfl
  | runHeader c =>
    simp only [step]
    split
    · exact absurd ‹_› (hconn c _)
    · rfl
  | closeAcceptors k =>
    have hn := hserver (.closeAcceptors k) rfl
    simp only [Server.step, Server.act, Option.map_eq_none_iff] at hn
    simp only [step, listenerStep, Listeners.step, Listeners.act, Option.map_eq_none_iff]
    exact hn
  | listener l =>
    cases l with
    | accepted | signal => cases he
    | runSignalHandler => simp [step, Listeners.Event.isShared, listenerStep, Listeners.step, h.signals]
    | registry a => rfl
    | checkShutdown p | startAccept p | resume p | cancelSignals p | uninstall p =>
      simp [step, Listeners.Event.isShared, listenerStep, Listeners.step, h.tasks p]
    | dispatch p => rfl
  | server e =>
    simp only [step, serverStep, hserver e he, Option.map_none, ite_self]

theorem mem_of_heard {ls : List (Listeners.Event SessionId)} {p : Port}
    (hh : ls.filter (·.fromOutside) = as.filterMap Event.heard) (hm : .accepted p .operationAborted ∈ ls) :
    .listener (.accepted p .operationAborted) ∈ as := by
  have hf : .accepted p .operationAborted ∈ as.filterMap Event.heard := hh ▸ List.mem_filter.2 ⟨hm, rfl⟩
  obtain ⟨e, he, hl⟩ := List.mem_filterMap.1 hf
  rcases Event.heard_inv hl with rfl | ⟨_, _, -, hs⟩
  · exact he
  · cases hs

theorem standing_of_run (h : Run (Det step) (new cfg memory now) as s) : s.Standing :=
  h.invariant (fun _ _ _ hi h => hi.step (step_cases h)) .new

theorem Stuck.finished_or_waiting (h : Run (Det step) (new cfg memory now) as s) (hst : s.Stuck) (hd : s.Due) :
    s.Finished ∨ s.Waiting as := by
  have hi := standing_of_run h
  have hrest := (hst.server hi hd).atRest hi.live
  have htasks := hst.tasks hi
  obtain ⟨ls, hr, hheard, hn⟩ := listeners_of_run h
  obtain ⟨htidy, hphase⟩ := Listeners.intact_or_ending hr fun l hl he => hn (he ▸ hl)
  rcases hphase with hin | hend
  · have hpending : s.listeners.signals = some .pending := by
      rcases hst.signals with hs | hs
      · rcases hin.signals with hs' | hs' <;> rw [hs] at hs' <;> cases hs'
      · exact hs
    refine .inr ⟨hrest, hin.calls, hpending, fun p hp ha => ?_⟩
    rcases htasks p with ht | ht
    · exact ⟨ht, htidy.pending p ht⟩
    · have hun := hin.tasks p
      rw [ht] at hun
      rcases hun with hm | hno
      · exact absurd (mem_of_heard hheard hm) ha
      · rw [hp] at hno
        cases hno
  · have hclosed : ∀ p, s.listeners.isOpen p = false := by
      rcases hend.closing with hc | ⟨q, hq⟩ | ⟨q, hq, -⟩ | ho
      · exact htidy.closed (hrest.closed hc)
      · rcases htasks q with ht | ht <;> rw [hq] at ht <;> cases ht
      · rcases htasks q with ht | ht <;> rw [hq] at ht <;> cases ht
      · exact ho
    refine .inl ⟨hrest, hst.signals.resolve_right hend.signals, fun p => (htasks p).resolve_left fun ht => ?_⟩
    have ho := htidy.pending p ht
    rw [hclosed p] at ho
    cases ho

/-- The connections that the events accept. -/
def acceptedIn (as : List Event) : List ConnId := as.filterMap fun
  | .accepted _ c => some c
  | _ => none

theorem within_acceptedIn (ha : e ∈ as) (s : System) : s.Within (acceptedIn as).toFinset e := by
  rintro p c rfl
  exact List.mem_toFinset.2 (List.mem_filterMap.2 ⟨_, ha, rfl⟩)

theorem rank_new_le (cs : Finset ConnId) : (new cfg memory now).rank cs ≤ 19 := by
  have hserver : (new cfg memory now).server.rank cs = 2 := Server.rank_new_server cs cfg memory
  have htask : ∀ p, ((new cfg memory now).listeners.tasks p).rank ≤ 7 := by
    intro p
    show (if hasAcceptor cfg p then ListenerTask.loop else .returned).rank ≤ 7
    split <;> decide
  have hhttp := htask .http
  have hhttps := htask .https
  have hsignals : Listeners.signalsRank (new cfg memory now).listeners.signals = 3 := rfl
  rw [rank, Listeners.rank, hserver, hsignals]
  omega

theorem ranked (cs : Finset ConnId) :
    Ranked (Guarded (Within cs) (Det step)) (fun s => s.server.Counted cs) (rank cs) Event.gain where
  kept s e t hi := fun ⟨hw, h⟩ => by
    rcases (step_cases h).server_step with he | ⟨e', hb, hs⟩
    · exact he ▸ hi
    · refine hi.step (fun c p hc => ?_) (Server.step_cases hs)
      subst hc
      exact hw _ _ hb.accept_inv
  lowers _ _ _ hi := fun ⟨hw, h⟩ => (step_cases h).lowers hi hw

/-- An accept is started on an acceptor that has not been destroyed. -/
def Holding (s : System) : Event → Prop
  | .listener (.startAccept _) => s.listeners.holdsAcceptors = true
  | _ => True

instance (s : System) (e : Event) : Decidable (s.Holding e) := by
  unfold Holding; split <;> infer_instance

theorem run_of_holding (h : Run (Guarded Holding (Det step)) s as t) : Run (Det step) s as t :=
  h.mono fun _ _ _ h => h.2

/-- Every run in which no accept is started on a destroyed acceptor is bounded by what it has got from outside. Once
nothing can happen any more and the waits for the headers have expired, either nothing is left and the server
ends, or nothing has been taken down. -/
theorem halts (h : Run (Guarded Holding (Det step)) (new cfg memory now) as s) :
    as.length ≤ 19 + (as.map Event.gain).sum ∧ (s.Stuck → s.Due → s.Finished ∨ s.Waiting as) ∧
    (s.Finished → s.Stuck) := by
  have h := run_of_holding h
  have hg := h.guarded (G := Within (acceptedIn as).toFinset) fun e he s => within_acceptedIn he s
  have hle := (ranked (acceptedIn as).toFinset).length_le .new hg
  have hn : (new cfg memory now).rank (acceptedIn as).toFinset ≤ 19 := rank_new_le _
  exact ⟨by omega, fun hst hd => hst.finished_or_waiting h hd, fun hf => hf.stuck⟩

/-- Both listeners wait for a connection when a signal comes. -/
def signalled : List Event :=
  [.listener (.checkShutdown .http), .listener (.startAccept .http), .listener (.checkShutdown .https),
   .listener (.startAccept .https), .listener .signal, .listener .runSignalHandler, .server (.compareExchange 0),
   .server (.collect 0), .closeAcceptors 0, .listener (.resume .https), .listener (.resume .http)]

theorem run_signalled : ∃ s, Run (Guarded Holding (Det step)) (new {} (fun _ => []) 0) signalled s ∧ s.Finished ∧
    s.Due := by
  obtain ⟨s, hr, hs⟩ := Lts.exists_guarded_run (G := Holding) (p := fun s : System => s.listeners.signals = none ∧
      s.listeners.tasks .http = .returned ∧ s.listeners.tasks .https = .returned ∧
      s.listeners.registry.calls = [.finished] ∧ s.listeners.registry.constructed = [] ∧
      s.listeners.registry.acceptorsOpen = false)
    (show ((signalled.foldlM (fun s e => if Holding s e then step s e else none)
      (new {} (fun _ => []) 0)).any _) = true by decide +kernel)
  have h := run_of_holding hr
  obtain ⟨hsignals, hhttp, hhttps, hcalls, hnew, hopen⟩ := of_decide_eq_true hs
  have hg := h.guarded (G := Within (acceptedIn signalled).toFinset) fun e he s => within_acceptedIn he s
  have hcounted := hg.invariant (ranked _).kept .new
  have hrest : s.server.AtRest := by
    refine ⟨fun c => .inl (hcounted.within c List.not_mem_nil), fun i hi => ?_, fun w hw => ?_, fun _ => hopen⟩
    · rw [show s.server.registry.constructed = [] from hnew] at hi
      cases hi
    · rw [show s.server.registry.calls = [.finished] from hcalls] at hw
      exact .inr (List.mem_singleton.1 hw)
  refine ⟨s, hr, ⟨hrest, hsignals, fun p => by cases p <;> assumption⟩, fun c start hstart => ?_⟩
  obtain ⟨pre, post, -, has, -⟩ := (timed_of_run h).started c start hstart
  have hm : Event.runStart c true ∈ signalled := has ▸ List.mem_append_right _ List.mem_cons_self
  simp [signalled] at hm

theorem halts_signalled : ∃ s, Run (Guarded Holding (Det step)) (new {} (fun _ => []) 0) signalled s ∧ s.Stuck ∧
    s.Due ∧ (s.Finished ∨ s.Waiting signalled) ∧ s.listeners.signals = none := by
  obtain ⟨s, h, hf, hdue⟩ := run_signalled
  obtain ⟨-, hstop, hend⟩ := halts h
  exact ⟨s, h, hend hf, hdue, hstop (hend hf) hdue, hf.signals⟩

end System

end MarketBridge
