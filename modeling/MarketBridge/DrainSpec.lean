import MarketBridge.SessionRuns
import MarketBridge.WorkSpec

/-!
# The server comes to rest

With peers that complete what is pending the server comes to rest: as long as something is left (an open
connection, a session that has not been destroyed, a call of `schedule_shutdown` that has not ended), some event
that puts no new work in is possible, and each of them lowers the rank. The completion of a pending operation by a
peer, with success or with an error, counts as such an event, so it is assumed to come: a peer that stays silent
for ever holds its connection, and nothing here says otherwise.
-/

namespace MarketBridge

open Lts (Run Det Guarded Ranked)

/-! ### A session -/

namespace HttpSession

variable {s t : HttpSession} {e : Event}

/-- No event is possible but a call from the server or the delivery of a chunk; nothing waits for a peer either. -/
def Stuck (s : HttpSession) : Prop := ∀ e : Event, e.isCall = false → e.gain = 0 → s.step e = none

theorem Stuck.header (h : s.Stuck) (hc : s.header ≠ .constructed) : s.header = .done := by
  cases hh : s.header with
  | constructed => exact absurd hh hc
  | spawned => simpa [step, hh] using h (.runStart true) rfl rfl
  | reading op =>
    cases op with
    | pending => simpa [step, hh] using h (.headerRead .eof []) rfl rfl
    | ready r => simpa [step, hh] using h (.runHeader true) rfl rfl
  | done => rfl

theorem Stuck.timer (h : s.Stuck) : s.timer ≠ .armed ∧ s.timer.isReady = false := by
  cases ht : s.timer with
  | armed => simpa [step, ht] using h .timerExpires rfl rfl
  | queued ec => simpa [step, ht] using h .runTimer rfl rfl
  | idle | done => exact ⟨by simp, rfl⟩

theorem Stuck.timeout (h : s.Stuck) : s.timeout.isWriting = false ∧ s.timeout.isReady = false := by
  cases ht : s.timeout with
  | spawned ec => simpa [step, ht] using h .runTimeout rfl rfl
  | writing op =>
    cases op with
    | pending => simpa [step, ht] using h (.timeoutWritten .eof) rfl rfl
    | ready ec => simpa [step, ht] using h .runTimeout rfl rfl
  | none | done => exact ⟨rfl, rfl⟩

theorem Stuck.reply (h : s.Stuck) : s.reply.isWriting = false ∧ s.reply.isReady = false := by
  cases hr : s.reply with
  | disallow | health request => simpa [step, hr] using h .runReply rfl rfl
  | writing op =>
    cases op with
    | pending => simpa [step, hr] using h (.replyWritten .eof) rfl rfl
    | ready ec => simpa [step, hr] using h .runReply rfl rfl
  | none | done => exact ⟨rfl, rfl⟩

theorem Stuck.outgoing (h : s.Stuck) :
    s.outgoing.isWriting = false ∧ s.outgoing.isPending = false ∧ s.outgoing.isReady = false := by
  cases ho : s.outgoing with
  | spawned => simpa [step, ho] using h (.startOutgoing true) rfl rfl
  | waiting op result =>
    cases result with
    | pending => simpa [step, ho] using h (.upstreamDone op .eof) rfl rfl
    | ready ec => simpa [step, ho] using h .runOutgoing rfl rfl
  | reading result =>
    cases result with
    | pending => simpa [step, ho, ReadResult] using h (.upstreamRead .eof []) rfl rfl
    | ready r => simpa [step, ho] using h .runOutgoing rfl rfl
  | relaying result =>
    cases result with
    | pending => simpa [step, ho] using h (.relayWritten .eof) rfl rfl
    | ready ec => simpa [step, ho] using h .runOutgoing rfl rfl
  | none | done | failed => exact ⟨rfl, rfl, rfl⟩

theorem Stuck.stops (h : s.Stuck) : s.stops = 0 := by
  cases hs : s.stops with
  | zero => rfl
  | succ n => simpa [step, hs] using h .runStop rfl rfl

theorem Stuck.not_busy (h : s.Stuck) (hc : s.header ≠ .constructed) :
    s.isPending = false ∧ s.isReady = false := by
  obtain ⟨hw, hr⟩ := h.timeout
  obtain ⟨hw', hr'⟩ := h.reply
  obtain ⟨hw'', hp, hr''⟩ := h.outgoing
  have hh := h.header hc
  constructor
  · simp [isPending, isWriting, hh, HeaderTask.isPending, hw, hw', hw'', hp]
  · simp [isReady, hh, HeaderTask.isReady, h.timer.2, hr, hr', hr'', h.stops]

/-- Only `start` leaves the state in which a session is made, and nothing leads back. -/
theorem Step.of_constructed (h : Step s e t) (ht : t.header = .constructed) : s.header = .constructed := by
  have hclose : ∀ header : HeaderTask, header.close = .constructed → header = .constructed := by
    intro header hc
    cases header with
    | constructed => rfl
    | _ => cases hc
  have hstop : ∀ s : HttpSession, s.stopHandler.header = .constructed → s.header = .constructed := by
    intro s hs
    rcases stopHandler_cases s with ⟨-, he⟩ | ⟨-, he⟩ <;> rw [he] at hs
    · exact hs
    · exact hclose _ hs
  cases h with
  | start | headerRead | startFailed | obtainHeader | headerFailed | headerDropped | disallow | health
  | forward => cases ht
  | timeoutFailed => exact hstop _ ht
  | @runStop n => exact hstop { s with stops := n } ht
  | timeoutDone | relayDone => exact hclose _ ht
  | _ => exact ht

end HttpSession

/-! ### What is left to be done for a session -/

namespace Registry

variable {ι : Type} {r r' : Registry ι}

def Unregistered [DecidableEq ι] (r : Registry ι) (i : ι) : Prop := r.isAlive i = true ∧ i ∉ r.results.map (·.1)

def Unstarted (r : Registry ι) (i : ι) : Prop := (i, true) ∈ r.results ∧ i ∉ r.started

variable [DecidableEq ι] {a : Action ι} {i : ι}

theorem Step.unborn (h : Step r a r') (hi : i ∉ r.constructed) (ha : a ≠ .construct i) :
    i ∉ r'.constructed := by
  cases h with
  | construct =>
    intro hm
    rcases List.mem_append.1 hm with hm | hm
    · exact hi hm
    · exact ha (by rw [List.mem_singleton.1 hm])
  | _ => exact hi

theorem Step.unregistered (h : Step r a r') (hi : r.Unregistered i) (hd : a ≠ .destroy i)
    (hr : a ≠ .registerSession i) : r'.Unregistered i := by
  refine ⟨h.isAlive hd hi.1, ?_⟩
  have hsnoc : ∀ {j : ι} {b : Bool}, j ≠ i → i ∉ (r.results ++ [(j, b)]).map (·.1) := by
    intro j b hne hm
    rw [List.map_append, List.mem_append] at hm
    exact hm.elim hi.2 fun hm => hne (List.mem_singleton.1 hm).symm
  cases h with
  | register | refuse => exact hsnoc fun he => hr (he ▸ rfl)
  | _ => exact hi.2

theorem Step.unstarted (h : Step r a r') (hi : r.Unstarted i) (ha : a ≠ .start i) : r'.Unstarted i := by
  refine ⟨h.results hi.1, ?_⟩
  cases h with
  | start =>
    intro hm
    rcases List.mem_append.1 hm with hm | hm
    · exact hi.2 hm
    · exact ha (by rw [List.mem_singleton.1 hm])
  | _ => exact hi.2

theorem Step.constructs (hl : r.Listed) (h : Step r (.construct i) r') : r'.Unregistered i := by
  cases h with
  | construct hn =>
    refine ⟨isAlive_iff.2 ⟨by simp, fun hd => hn (hl.destroyed i hd)⟩, fun hm => ?_⟩
    obtain ⟨p, hp, rfl⟩ := List.mem_map.1 hm
    exact hn (hl.constructed p hp)

theorem Step.registers (hl : r.Listed) (h : Step r (.registerSession i) r') (hp : r.shutdownPending = false) :
    r'.Unstarted i := by
  cases h with
  | register ha hn =>
    exact ⟨by simp, fun hm => hn (List.mem_map.2 ⟨_, hl.started i hm, rfl⟩)⟩
  | refuse ha hn hp' => simp [hp] at hp'

/-- The acceptors are closed at the end of the call that has won. -/
theorem Step.closes (h : Step r a r') (hi : .finished ∈ r.calls → r.acceptorsOpen = false)
    (hf : .finished ∈ r'.calls) : r'.acceptorsOpen = false := by
  have hset : ∀ {k : Nat} {c : ShutdownCall ι}, c ≠ .finished → .finished ∈ r.calls.set k c →
      r.acceptorsOpen = false := by
    intro k c hc hm
    exact hi ((List.mem_or_eq_of_mem_set hm).resolve_right fun he => hc he.symm)
  cases h with
  | scheduleShutdown =>
    refine hi ((List.mem_append.1 hf).resolve_right ?_)
    simp
  | lose | win | collect | stopNext => exact hset (by simp) hf
  | closeAcceptors => rfl
  | _ => exact hi hf

end Registry

/-- How far the sessions of a connection have come: what a connection waits for has not been done yet. -/
def Conn.Staged (r : Registry SessionId) (c : ConnId) : Conn → Prop
  | handshake .constructed => r.Unregistered ⟨c, .handshake⟩ ∧ ⟨c, .http⟩ ∉ r.constructed
  | handshake .registered => r.Unstarted ⟨c, .handshake⟩ ∧ ⟨c, .http⟩ ∉ r.constructed
  | http session => session.header = .constructed → r.Unregistered ⟨c, .http⟩ ∨ r.Unstarted ⟨c, .http⟩
  | handshake _ => ⟨c, .http⟩ ∉ r.constructed
  | closed => True
  | _ => ∀ kind, ⟨c, kind⟩ ∉ r.constructed

/-- The action makes, registers or starts a session of the connection. -/
def Registry.Action.Touches (c : ConnId) (a : Registry.Action SessionId) : Prop :=
  ∃ kind, a = .construct ⟨c, kind⟩ ∨ a = .registerSession ⟨c, kind⟩ ∨ a = .start ⟨c, kind⟩

theorem Conn.Staged.act {r r' : Registry SessionId} {a : Registry.Action SessionId} {c : ConnId} {conn : Conn}
    (hi : conn.Staged r c) (h : Registry.Step r a r') (ha : ¬ a.Touches c)
    (hd : ∀ kind, a = .destroy ⟨c, kind⟩ → conn.uses kind = false) : conn.Staged r' c := by
  have hnew : ∀ kind, a ≠ .construct ⟨c, kind⟩ := fun kind he => ha ⟨kind, .inl he⟩
  have hreg : ∀ kind, a ≠ .registerSession ⟨c, kind⟩ := fun kind he => ha ⟨kind, .inr (.inl he)⟩
  have hstart : ∀ kind, a ≠ .start ⟨c, kind⟩ := fun kind he => ha ⟨kind, .inr (.inr he)⟩
  have hdestroy : ∀ kind, conn.uses kind = true → a ≠ .destroy ⟨c, kind⟩ := fun kind hu he => by
    rw [hd kind he] at hu
    cases hu
  cases conn with
  | http session =>
    intro hh
    rcases hi hh with hi | hi
    · exact .inl (h.unregistered hi (hdestroy _ rfl) (hreg _))
    · exact .inr (h.unstarted hi (hstart _))
  | handshake task =>
    cases task with
    | constructed => exact ⟨h.unregistered hi.1 (hdestroy _ rfl) (hreg _), h.unborn hi.2 (hnew _)⟩
    | registered => exact ⟨h.unstarted hi.1 (hstart _), h.unborn hi.2 (hnew _)⟩
    | spawned | handshaking => exact h.unborn hi (hnew _)
  | closed => trivial
  | fresh | accepted | dispatching | sniffing => exact fun kind => h.unborn (hi kind) (hnew kind)

namespace Server

variable {s t : Server} {e : Event} {as : List Event} {cfg : Config} {memory : ConnId → Bytes} {c : ConnId}

/-- Every connection can go on, and so can the shutdown. -/
structure Live (s : Server) : Prop where
  inv : s.Inv
  staged : ∀ c, (s.conns c).Staged s.registry c
  closed : .finished ∈ s.registry.calls → s.registry.acceptorsOpen = false

theorem Live.new : (Server.new cfg memory).Live :=
  ⟨.new, fun _ _ => List.not_mem_nil, fun h => absurd h List.not_mem_nil⟩

theorem staged_setConn {conn : Conn} {r : Registry SessionId}
    (hs : ∀ c', c' ≠ c → (s.conns c').Staged r c') (hc : conn.Staged r c) (c' : ConnId) :
    (({ s with registry := r }.setConn c conn).conns c').Staged r c' := by
  rw [setConn_conns]
  split
  · subst c'
    exact hc
  · exact hs c' ‹_›

/-- What one connection does with the registry does not reach the other ones. -/
theorem Live.others {a : Registry.Action SessionId} {r : Registry SessionId} (hi : s.Live)
    (h : Registry.Step s.registry a r) (ha : ∀ c', c' ≠ c → ¬ a.Touches c') (hd : ∀ i, a ≠ .destroy i) :
    ∀ c', c' ≠ c → (s.conns c').Staged r c' :=
  fun c' hne => (hi.staged c').act h (ha c' hne) fun _ he => absurd he (hd _)

theorem Live.own {conn : Conn} (hi : s.Live) (h : s.conns c = conn) : conn.Staged s.registry c := h ▸ hi.staged c

theorem Secures.unborn {ok : Bool} (hi : s.Live) (h : s.Secures c ok e) : ⟨c, .http⟩ ∉ s.registry.constructed := by
  rcases h with ⟨-, h⟩ | ⟨-, data, h⟩ <;> exact hi.own h .http

theorem Step.staged (hi : s.Live) (h : Step s e t) : ∀ c, (t.conns c).Staged t.registry c := by
  have hl := hi.inv.registry.listed
  have hsame : ∀ {c' : ConnId} {conn : Conn}, conn.Staged s.registry c' →
      ∀ c, ((s.setConn c' conn).conns c).Staged s.registry c :=
    staged_setConn (s := s) (r := s.registry) fun c _ => hi.staged c
  have htouch : ∀ {c' : ConnId} {kind : SessionKind} {a : Registry.Action SessionId},
      a = .construct ⟨c', kind⟩ ∨ a = .registerSession ⟨c', kind⟩ ∨ a = .start ⟨c', kind⟩ →
      ∀ c, c ≠ c' → ¬ a.Touches c := by
    rintro c' kind a ha c hne ⟨kind', h⟩
    rcases ha with rfl | rfl | rfl <;> simp_all
  cases h with
  | accept h | dispatch h | sniff h | peeked h | handshake h | handshaken h =>
    have hs := hi.own h
    exact hsame hs
  | sniffFailed | noContext | handshakeFailed | finish => exact hsame trivial
  | secure h hr =>
    exact staged_setConn (hi.others hr (htouch (.inl rfl)) (by simp))
      ⟨hr.constructs hl, hr.unborn (h.unborn hi) (by simp)⟩
  | launch h hr =>
    exact staged_setConn (hi.others hr (htouch (.inl rfl)) (by simp)) fun _ => .inl (hr.constructs hl)
  | @registerHandshake c r h hr =>
    refine staged_setConn (hi.others hr (htouch (.inr (.inl rfl))) (by simp)) ?_
    cases hp : s.registry.shutdownPending with
    | true => trivial
    | false => exact ⟨hr.registers hl hp, hr.unborn (hi.own h).2 (by simp)⟩
  | @registerHttp c session r h hh hr =>
    refine staged_setConn (hi.others hr (htouch (.inr (.inl rfl))) (by simp)) ?_
    cases hp : s.registry.shutdownPending with
    | true => trivial
    | false => exact fun _ => .inr (hr.registers hl hp)
  | startHandshake h hr =>
    exact staged_setConn (hi.others hr (htouch (.inr (.inr rfl))) (by simp)) (hr.unborn (hi.own h).2 (by simp))
  | startHttp h hs hr =>
    refine staged_setConn (hi.others hr (htouch (.inr (.inr rfl))) (by simp)) fun hh => ?_
    cases hs with
    | start => cases hh
  | session h _ _ hs => exact hsame fun hh => hi.own h (hs.of_constructed hh)
  | @destroy i r hu hr =>
    refine fun c => (hi.staged c).act hr (by simp [Registry.Action.Touches]) fun kind he => ?_
    obtain rfl := Registry.Action.destroy.inj he
    exact hu
  | @shutdown e a r he hr =>
    intro c
    refine (hi.staged c).act hr ?_ ?_
    all_goals
      cases e <;> simp only [Event.shutdownAction, Option.some.injEq, reduceCtorEq] at he
      all_goals subst he; simp [Registry.Action.Touches]
  | @stopNext k active rest i r hk hr =>
    have hs : ∀ c, (s.conns c).Staged r c := fun c =>
      (hi.staged c).act hr (by simp [Registry.Action.Touches]) (by simp)
    rw [stopSession_registry]
    unfold stopSession
    split
    · rename_i session h _
      refine staged_setConn (s := s) (fun c _ => hs c) ?_
      have hc := hs i.conn
      rw [show s.conns i.conn = .http session from h] at hc
      exact hc
    · exact hs

theorem Live.step (hi : s.Live) (h : Step s e t) : t.Live := by
  refine ⟨hi.inv.step h, h.staged hi, ?_⟩
  rcases h.registry with hr | ⟨a, hr⟩
  · rw [hr]
    exact hi.closed
  · exact hr.closes hi.closed

/-! ### What is left can go on -/

/-- Nothing is left: no connection, no session and no call of `schedule_shutdown`, and when there was a call
the acceptors are closed. -/
structure AtRest (s : Server) : Prop where
  conns : ∀ c, s.conns c = .fresh ∨ s.conns c = .closed
  destroyed : ∀ i ∈ s.registry.constructed, i ∈ s.registry.destroyed
  calls : ∀ w ∈ s.registry.calls, w = .returned ∨ w = .finished
  closed : s.registry.calls ≠ [] → s.registry.acceptorsOpen = false

/-- No event is possible but those that put new work in; no completion by a peer is awaited either. -/
def Stuck (s : Server) : Prop := ∀ e : Event, e.gain = 0 → s.step e = none

theorem isSome_act {a : Registry.Action SessionId} (h : (s.registry.step a).isSome = true) :
    ∃ r, s.act a = some { s with registry := r } := by
  obtain ⟨r, hr⟩ := Option.isSome_iff_exists.1 h
  exact ⟨r, by rw [act, hr]; rfl⟩

theorem act_construct {i : SessionId} (h : i ∉ s.registry.constructed) :
    ∃ r, s.act (.construct i) = some { s with registry := r } :=
  isSome_act (by simp [Registry.step, h])

theorem act_registerSession {i : SessionId} (h : s.registry.Unregistered i) :
    ∃ r, s.act (.registerSession i) = some { s with registry := r } := by
  refine isSome_act ?_
  rw [Registry.step, if_pos (And.intro h.1 h.2)]
  rfl

theorem act_start {i : SessionId} (h : s.registry.Unstarted i) :
    ∃ r, s.act (.start i) = some { s with registry := r } := by
  refine isSome_act ?_
  rw [Registry.step, if_pos (And.intro h.1 h.2)]
  rfl

theorem launchHttpSession_ne_none (h : ⟨c, .http⟩ ∉ s.registry.constructed) : s.launchHttpSession c ≠ none := by
  obtain ⟨r, hr⟩ := act_construct h
  simp [launchHttpSession, hr]

theorem sslHandshake_ne_none (h : ⟨c, .handshake⟩ ∉ s.registry.constructed) (ok : Bool) :
    s.sslHandshake c ok ≠ none := by
  obtain ⟨r, hr⟩ := act_construct h
  cases ok <;> simp [sslHandshake, hr]

/-- Whatever the SSL context answers, the connection goes on. -/
theorem Live.runListener {p : Port} (hi : s.Live) (hc : s.conns c = .accepted p) (ok : Bool) :
    s.step (.runListener c ok) ≠ none := by
  cases p with
  | http => simp [Server.step, hc]
  | https =>
    simp only [Server.step, hc]
    exact sslHandshake_ne_none (hi.own hc .handshake) ok

theorem Live.runSniff {r : ErrorCode × Bytes} (hi : s.Live) (hc : s.conns c = .sniffing (.ready r)) (ok : Bool) :
    s.step (.runSniff c ok) ≠ none := by
  obtain ⟨ec, data⟩ := r
  simp only [Server.step, hc, protocolDetected]
  split
  · simp
  · split
    · exact sslHandshake_ne_none (hi.own hc .handshake) ok
    · exact launchHttpSession_ne_none (hi.own hc .http)

theorem Live.runDispatch (hi : s.Live) (hc : s.conns c = .dispatching) : s.step (.runDispatch c) ≠ none := by
  simp only [Server.step, hc, dispatchHttpRequest]
  split
  · exact launchHttpSession_ne_none (hi.own hc .http)
  · simp

theorem Live.runHandshake {ec : ErrorCode} (hi : s.Live) (hc : s.conns c = .handshake (.handshaking (.ready ec))) :
    s.step (.runHandshake c) ≠ none := by
  simp only [Server.step, hc, handshakeResumed]
  split
  · exact launchHttpSession_ne_none (hi.own hc)
  · simp

theorem Stuck.handshake {task : HandshakeTask} (hi : s.Live) (h : s.Stuck) : s.conns c ≠ .handshake task := by
  intro hc
  have hs := hi.own hc
  cases task with
  | constructed =>
    obtain ⟨r, hr⟩ := act_registerSession hs.1
    simpa [step, registerSession, hc, hr] using h (.registerSession ⟨c, .handshake⟩) rfl
  | registered =>
    obtain ⟨r, hr⟩ := act_start hs.1
    simpa [step, startSession, hc, hr] using h (.startSession ⟨c, .handshake⟩) rfl
  | spawned => simpa [step, hc] using h (.runHandshake c) rfl
  | handshaking op =>
    cases op with
    | pending => simpa [step, hc] using h (.handshaken c .eof) rfl
    | ready ec => exact hi.runHandshake hc (h (.runHandshake c) rfl)

theorem Stuck.http {session : HttpSession} (hi : s.Live) (h : s.Stuck) : s.conns c ≠ .http session := by
  intro hc
  by_cases hh : session.header = .constructed
  · rcases hi.own hc hh with hs | hs
    · obtain ⟨r, hr⟩ := act_registerSession hs
      simpa [step, registerSession, hc, hh, hr] using h (.registerSession ⟨c, .http⟩) rfl
    · obtain ⟨r, hr⟩ := act_start hs
      simpa [step, startSession, hc, hh, hr, HttpSession.step] using h (.startSession ⟨c, .http⟩) rfl
  · have hstuck : session.Stuck := fun e hcall hgain => by
      have he : ¬ (e = .start ∨ e = .stop) := by rintro (rfl | rfl) <;> cases hcall
      have hn := h (.session c e) hgain
      simpa only [step, hc, if_neg he, Option.map_eq_none_iff] using hn
    obtain ⟨hp, hr⟩ := hstuck.not_busy hh
    have hf := h (.finish c) rfl
    simp [step, hc, hstuck.header hh, hstuck.timer.1, hp, hr] at hf

theorem Stuck.conns (hi : s.Live) (h : s.Stuck) (c : ConnId) : s.conns c = .fresh ∨ s.conns c = .closed := by
  cases hc : s.conns c with
  | fresh => exact .inl rfl
  | accepted port => exact absurd (h (.runListener c true) rfl) (hi.runListener hc true)
  | dispatching => exact absurd (h (.runDispatch c) rfl) (hi.runDispatch hc)
  | sniffing op =>
    cases op with
    | pending => simpa [step, hc, PeekResult] using h (.peeked c .eof []) rfl
    | ready r => exact absurd (h (.runSniff c true) rfl) (hi.runSniff hc true)
  | handshake task => exact absurd hc (h.handshake hi)
  | http session => exact absurd hc (h.http hi)
  | closed => exact .inr rfl

theorem Stuck.calls (h : s.Stuck) : ∀ w ∈ s.registry.calls, w = .returned ∨ w = .finished := by
  intro w hw
  obtain ⟨k, hk⟩ := List.getElem?_of_mem hw
  cases w with
  | called => simpa [step, act, Registry.step, hk] using h (.compareExchange k) rfl
  | won => simpa [step, act, Registry.step, hk] using h (.collect k) rfl
  | stopping active rest =>
    cases rest with
    | nil => simpa [step, act, Registry.step, hk] using h (.closeAcceptors k) rfl
    | cons i rest => simpa [step, act, Registry.step, hk] using h (.stopNext k) rfl
  | returned => exact .inl rfl
  | finished => exact .inr rfl

theorem Stuck.atRest (hi : s.Live) (h : s.Stuck) : s.AtRest := by
  have hconns := h.conns hi
  have hcalls := h.calls
  refine ⟨hconns, fun i hm => by_contra fun hd => ?_, hcalls, fun hne => hi.closed ?_⟩
  · -- no call and no connection holds the session
    have hheld : ∀ w ∈ s.registry.calls, i ∉ w.held := fun w hw => by
      rcases hcalls w hw with rfl | rfl <;> exact List.not_mem_nil
    have huse : (s.conns i.conn).uses i.kind = false := by
      rcases hconns i.conn with hc | hc <;> rw [hc] <;> rfl
    have hn := h (.destroy i) rfl
    simp only [step, huse, Bool.false_eq_true, if_false, act, Registry.step,
      if_pos (And.intro (Registry.isAlive_iff.2 ⟨hm, hd⟩) hheld)] at hn
    cases hn
  · -- a call that has won has finished
    cases hi.inv.registry.shutdown with
    | calm hp hc hs =>
      obtain ⟨w, hw⟩ := List.exists_mem_of_ne_nil _ hne
      rcases hcalls w hw with rfl | rfl <;> cases hc _ hw
    | @pending k w hp hk ho hw =>
      have hm := List.mem_of_getElem? hk
      rcases hcalls w hm with rfl | rfl
      · exact hw.elim
      · exact hm

theorem AtRest.call {k : Nat} {w : ShutdownCall SessionId} (h : s.AtRest) (hk : s.registry.calls[k]? = some w) :
    w = .returned ∨ w = .finished :=
  h.calls w (List.mem_of_getElem? hk)

/-- At rest nothing goes on by itself. -/
theorem AtRest.stuck (h : s.AtRest) : s.Stuck := by
  intro e he
  cases e with
  | accept | scheduleShutdown => cases he
  | runListener c | runDispatch c | peeked c | runSniff c | runHandshake c | handshaken c | session c | finish c =>
    rcases h.conns c with hc | hc <;> simp only [step, hc]
  | registerSession i => rcases h.conns i.conn with hc | hc <;> simp only [step, registerSession, hc]
  | startSession i => rcases h.conns i.conn with hc | hc <;> simp only [step, startSession, hc]
  | destroy i =>
    have hn : ¬ (s.registry.isAlive i = true ∧ ∀ w ∈ s.registry.calls, i ∉ w.held) := by
      intro hx
      obtain ⟨hnew, halive⟩ := Registry.isAlive_iff.1 hx.1
      exact halive (h.destroyed i hnew)
    simp only [step, act, Registry.step, if_neg hn, Option.map_none, ite_self]
  | compareExchange k =>
    have hn : s.registry.calls[k]? ≠ some .called := fun hk => by rcases h.call hk with hw | hw <;> cases hw
    simp only [step, act, Registry.step, if_neg hn, Option.map_none]
  | collect k =>
    have hn : s.registry.calls[k]? ≠ some .won := fun hk => by rcases h.call hk with hw | hw <;> cases hw
    simp only [step, act, Registry.step, if_neg hn, Option.map_none]
  | stopNext k =>
    simp only [step]
    split
    · rename_i hk
      rcases h.call hk with hw | hw <;> cases hw
    · rfl
  | closeAcceptors k =>
    simp only [step, act, Registry.step]
    split
    · rename_i hk
      rcases h.call hk with hw | hw <;> cases hw
    · rfl

/-! ### The runs -/

/-- The connections that the events accept. -/
def acceptedIn (as : List Event) : List ConnId := as.filterMap fun
  | .accept c _ => some c
  | _ => none

theorem within_acceptedIn (ha : e ∈ as) (s : Server) : s.Within (acceptedIn as).toFinset e := by
  rintro c port rfl
  exact List.mem_toFinset.2 (List.mem_filterMap.2 ⟨_, ha, rfl⟩)

theorem ranked_live (cs : Finset ConnId) :
    Ranked (Guarded (Within cs) (Det step)) (fun s => s.Counted cs ∧ s.Live) (rank cs) Event.gain :=
  (ranked cs).inter fun _ _ _ hi ⟨_, h⟩ => hi.step (step_cases h)

/-- A run is at most as long as the connections, the chunks and the calls of `schedule_shutdown` it has got
have paid for. Events that put no new work in, the completions by peers among them, are possible exactly as long as
something is left, and they lead to rest. -/
theorem drains (h : Run (Det step) (new cfg memory) as s) :
    as.length ≤ 2 + (as.map Event.gain).sum ∧ (s.Stuck ↔ s.AtRest) ∧
    ∃ bs t, Run (Det step) s bs t ∧ (∀ e ∈ bs, e.gain = 0) ∧ t.AtRest := by
  have hg := h.guarded (G := Within (acceptedIn as).toFinset) fun e he s => within_acceptedIn he s
  have hr := ranked_live (acceptedIn as).toFinset
  have h₀ : (new cfg memory).Counted (acceptedIn as).toFinset ∧ (new cfg memory).Live := ⟨.new, .new⟩
  have hs := hg.invariant hr.kept h₀
  refine ⟨?_, ⟨fun hst => hst.atRest hs.2, fun hrest => hrest.stuck⟩, ?_⟩
  · have hle := hr.length_le h₀ hg
    rw [rank_new_server] at hle
    omega
  · have hp : ∀ u : Server, u.Counted (acceptedIn as).toFinset ∧ u.Live → ¬ u.AtRest →
        ∃ es t, Run (Guarded (Within (acceptedIn as).toFinset) (Det step)) u es t ∧
          (t.rank (acceptedIn as).toFinset < u.rank (acceptedIn as).toFinset ∨ t.AtRest) ∧
          ∀ e ∈ es, e.gain = 0 := by
      intro u hu hrest
      have hst : ¬ u.Stuck := fun hst => hrest (hst.atRest hu.2)
      obtain ⟨e, he, hne⟩ : ∃ e : Event, e.gain = 0 ∧ u.step e ≠ none := by
        simpa [Stuck] using hst
      obtain ⟨t, ht⟩ := Option.ne_none_iff_exists'.1 hne
      have hwithin : u.Within (acceptedIn as).toFinset e := by
        rintro c port rfl
        cases he
      exact ⟨[e], t, .single ⟨hwithin, ht⟩, .inl (hr.lt hu ⟨hwithin, ht⟩ he), by simpa using he⟩
    obtain ⟨bs, t, hbs, ht, hgain⟩ := hr.exists_rest hp hs
    exact ⟨bs, t, hbs.mono fun _ _ _ h => h.2, hgain, ht⟩

theorem drains_connected : ∃ s bs t, Run (Det step) (new {} fun _ => []) connected s ∧ Run (Det step) s bs t ∧
    (∀ e ∈ bs, e.gain = 0) ∧ t.AtRest := by
  have hrun : (connected.foldlM step (new {} fun _ => [])).any (fun _ => true) = true := by decide +kernel
  obtain ⟨s, h, -⟩ := Lts.exists_run hrun
  obtain ⟨-, -, bs, t, hr, hbs, ht⟩ := drains h
  exact ⟨s, bs, t, h, hr, hbs, ht⟩

end Server

end MarketBridge
