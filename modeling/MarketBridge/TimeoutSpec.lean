import MarketBridge.ThrottleSpec

/-!
# When a client is answered with 408

The wait of `reading_timeout_guard` is started with the read of the header, and only its running out leads to
the 408. A header that is handled while the wait is on cancels it for good.
-/

namespace MarketBridge

open Lts (Run Det)

namespace HttpSession

variable {s t : HttpSession} {e : Event} {as : List Event} {upstreamInfo : UpstreamInfo} {memory : Bytes}

/-- The wait of the timer has run out. -/
def Expired (s : HttpSession) : Prop :=
  (∃ ec, s.timer = .queued ec ∧ ec ≠ .operationAborted) ∨ s.timeout ≠ .none

/-- The header has been handled and nothing is left of the timer but its cancelled wait. -/
structure Defused (s : HttpSession) : Prop where
  header : s.header = .done
  timer : s.timer = .queued .operationAborted ∨ s.timer = .done
  timeout : s.timeout = .none
  handed : ∀ response, (.timeout, response) ∉ s.handed

theorem timeout_close_eq_none {x : TimeoutTask} : x.close = .none ↔ x = .none := by
  cases x <;> simp [TimeoutTask.close]

theorem cancel_queued {x : HeaderTimer} {ec : ErrorCode} (h : x.cancel = .queued ec) (he : ec ≠ .operationAborted) :
    x = .queued ec := by
  cases x with
  | armed =>
    rw [HeaderTimer.cancel, HeaderTimer.queued.injEq] at h
    exact absurd h.symm he
  | _ => exact h

theorem expired_shutdown : s.shutdown.Expired ↔ s.Expired := by
  simp only [Expired, shutdown, ne_eq, timeout_close_eq_none]

theorem expired_stopHandler : s.stopHandler.Expired ↔ s.Expired := by
  rcases stopHandler_cases s with ⟨-, he⟩ | ⟨-, he⟩ <;> rw [he]
  · rfl
  · exact expired_shutdown

theorem Expired.of_cancel (h : Expired { s with timer := s.timer.cancel }) : s.Expired := by
  rcases h with ⟨ec, h, he⟩ | h
  · exact .inl ⟨ec, cancel_queued h he, he⟩
  · exact .inr h

theorem Step.expired (h : Step s e t) (ht : t.Expired) : s.Expired ∨ e = .timerExpires := by
  cases h with
  | timerExpires => exact .inr rfl
  | obtainHeader h =>
    rcases ht with ⟨ec, ht, -⟩ | ht
    · cases ht
    · exact .inl (.inr ht)
  | headerDropped | disallow | health | forward => exact .inl (Expired.of_cancel (s := s) ht)
  | timerCancelled =>
    rcases ht with ⟨ec, ht, -⟩ | ht
    · cases ht
    · exact .inl (.inr ht)
  | timerFired h he => exact .inl (.inl ⟨_, h, he⟩)
  | timeoutWritten h | timeoutCancelled h | timeoutFailed h | timeoutLate h | timeoutReply h | timeoutDone h =>
    exact .inl (.inr (by simp [h]))
  | @runStop n => exact .inl (expired_stopHandler (s := { s with stops := n }).1 ht)
  | relayDone => exact .inl (expired_shutdown.1 ht)
  | _ => exact .inl ht

/-- The wait is on while the header is read, unless it has run out; a 408 has been handed over by
`on_header_timeout` only. -/
structure Watched (s : HttpSession) : Prop where
  reading : ∀ op, s.header = .reading op → s.timer = .armed ∨ s.Expired
  handed : ∀ response, (.timeout, response) ∈ s.handed → s.timeout ≠ .none

theorem Watched.new : (new upstreamInfo memory).Watched := by
  constructor <;> simp [HttpSession.new]

theorem Watched.shutdown (hi : s.Watched) : s.shutdown.Watched where
  reading op h := by
    rw [expired_shutdown]
    cases hh : s.header with
    | reading op' => exact hi.reading op' hh
    | _ => simp [HttpSession.shutdown, hh, HeaderTask.close] at h
  handed response h := by
    rw [HttpSession.shutdown, ne_eq, timeout_close_eq_none]
    exact hi.handed response h

theorem Watched.stopHandler (hi : s.Watched) : s.stopHandler.Watched := by
  rcases stopHandler_cases s with ⟨-, he⟩ | ⟨-, he⟩ <;> rw [he]
  · exact ⟨hi.reading, hi.handed⟩
  · have hs := hi.shutdown
    exact ⟨hs.reading, hs.handed⟩

/-- A step that reads no header and leaves the timer and what has been handed over. -/
theorem Watched.congr (hi : s.Watched) (hh : ∀ op, t.header = .reading op → ∃ op', s.header = .reading op')
    (ht : t.timer = s.timer) (hto : s.timeout ≠ .none → t.timeout ≠ .none) (hd : t.handed = s.handed) :
    t.Watched := by
  refine ⟨fun op h => ?_, fun response h => hto (hi.handed response (hd ▸ h))⟩
  obtain ⟨op', h'⟩ := hh op h
  rcases hi.reading op' h' with ha | ⟨ec, hq, he⟩ | hn
  · exact .inl (ht.trans ha)
  · exact .inr (.inl ⟨ec, ht.trans hq, he⟩)
  · exact .inr (.inr (hto hn))

/-- The header task is over. -/
theorem Watched.headerEnds (hi : s.Watched) (hh : t.header = .done) (hto : t.timeout = s.timeout)
    (hd : t.handed = s.handed) : t.Watched :=
  ⟨fun op h => by simp [hh] at h, fun response h => hto ▸ hi.handed response (hd ▸ h)⟩

theorem Watched.respond {kind : ResponseKind} {response : Bytes} (hi : s.Watched) (hk : kind ≠ .timeout)
    (hh : t.header = s.header) (ht : t.timer = s.timer) (hto : t.timeout = s.timeout)
    (hd : t.handed = s.handed ++ [(kind, response)]) : t.Watched where
  reading op h := by
    have := hi.reading op (hh ▸ h)
    rwa [Expired, ht, hto]
  handed r h := hto ▸ hi.handed r (mem_handed_of_ne hk.symm (hd ▸ h))

theorem Watched.step (hi : s.Watched) (h : Step s e t) : t.Watched := by
  cases h with
  | start => exact ⟨nofun, hi.handed⟩
  | headerRead h => exact hi.congr (fun _ _ => ⟨_, h⟩) rfl id rfl
  | timerExpires h => exact ⟨fun _ _ => .inr (.inl ⟨_, rfl, by simp⟩), hi.handed⟩
  | timeoutWritten => exact hi.congr (fun op h => ⟨op, h⟩) rfl (by simp) rfl
  | startFailed | headerFailed => exact hi.headerEnds rfl rfl rfl
  | headerDropped | disallow | health | forward => exact hi.headerEnds rfl rfl rfl
  | obtainHeader => exact ⟨fun _ _ => .inl rfl, hi.handed⟩
  | timerCancelled h =>
    refine ⟨fun op ho => ?_, hi.handed⟩
    rcases hi.reading op ho with ha | ⟨ec, hq, he⟩ | hn
    · simp [h] at ha
    · rw [h, HeaderTimer.queued.injEq] at hq
      exact absurd hq.symm he
    · exact .inr (.inr hn)
  | timerFired => exact ⟨fun _ _ => .inr (.inr (by simp)), fun _ _ => by simp⟩
  | timeoutCancelled => exact hi.congr (fun op h => ⟨op, h⟩) rfl (by simp) rfl
  | timeoutFailed =>
    have hs := hi.stopHandler
    exact hs.congr (fun op h => ⟨op, h⟩) rfl (by simp) rfl
  | timeoutLate => exact hi.congr (fun op h => ⟨op, h⟩) rfl (by simp) rfl
  | timeoutReply => exact ⟨fun _ _ => .inr (.inr (by simp)), fun _ _ => by simp⟩
  | timeoutDone =>
    have hs := hi.shutdown
    exact hs.congr (fun op h => ⟨op, h⟩) rfl (by simp) rfl
  | replyDisallow | replyHealth | relay => exact hi.respond (by simp) rfl rfl rfl rfl
  | @runStop n =>
    have hn : Watched { s with stops := n } := ⟨hi.reading, hi.handed⟩
    exact hn.stopHandler
  | relayDone =>
    have hs := hi.shutdown
    exact hs.congr (fun op h => ⟨op, h⟩) rfl id rfl
  | _ => exact ⟨hi.reading, hi.handed⟩

theorem watched_of_run (h : Run (Det step) (new upstreamInfo memory) as s) : s.Watched :=
  h.invariant (fun _ _ _ hi h => hi.step (step_cases h)) .new

theorem Defused.shutdown (hi : s.Defused) : s.shutdown.Defused where
  header := by simp [HttpSession.shutdown, hi.header, HeaderTask.close]
  timer := hi.timer
  timeout := timeout_close_eq_none.2 hi.timeout
  handed := hi.handed

theorem Defused.stopHandler (hi : s.Defused) : s.stopHandler.Defused := by
  rcases stopHandler_cases s with ⟨-, he⟩ | ⟨-, he⟩ <;> rw [he]
  · exact ⟨hi.header, hi.timer, hi.timeout, hi.handed⟩
  · have hs := hi.shutdown
    exact ⟨hs.header, hs.timer, hs.timeout, hs.handed⟩

theorem Defused.respond {kind : ResponseKind} {response : Bytes} (hi : s.Defused) (hk : kind ≠ .timeout)
    (hh : t.header = s.header) (ht : t.timer = s.timer) (hto : t.timeout = s.timeout)
    (hd : t.handed = s.handed ++ [(kind, response)]) : t.Defused :=
  ⟨hh.trans hi.header, ht ▸ hi.timer, hto.trans hi.timeout,
    fun r h => hi.handed r (mem_handed_of_ne hk.symm (hd ▸ h))⟩

theorem Defused.step (hi : s.Defused) (h : Step s e t) : t.Defused := by
  have hheader := hi.header
  have htimeout := hi.timeout
  cases h with
  | start h | headerRead h | startFailed h | obtainHeader h | headerFailed h | headerDropped h | disallow h
  | health h | forward h => simp [hheader] at h
  | timerExpires h =>
    rcases hi.timer with ht | ht <;> simp [ht] at h
  | timerFired h he =>
    rcases hi.timer with ht | ht
    · rw [h, HeaderTimer.queued.injEq] at ht
      exact absurd ht he
    · simp [ht] at h
  | timeoutWritten h | timeoutCancelled h | timeoutFailed h | timeoutLate h | timeoutReply h | timeoutDone h =>
    simp [htimeout] at h
  | timerCancelled => exact ⟨hheader, .inr rfl, htimeout, hi.handed⟩
  | replyDisallow | replyHealth | relay => exact hi.respond (by simp) rfl rfl rfl rfl
  | @runStop n =>
    have hn : Defused { s with stops := n } := ⟨hheader, hi.timer, htimeout, hi.handed⟩
    exact hn.stopHandler
  | relayDone =>
    have hs := hi.shutdown
    exact ⟨hs.header, hs.timer, hs.timeout, hs.handed⟩
  | _ => exact ⟨hheader, hi.timer, htimeout, hi.handed⟩

/-- A header that is handled before the wait has run out cancels it. -/
theorem Step.defused {raw : Bytes} {allowed : Bool} (h : Step s (.runHeader allowed) t) (hi : s.Watched)
    (hh : s.header = .reading (.ready (.success, raw))) (he : ¬ s.Expired) : t.Defused := by
  have harmed : s.timer = .armed := (hi.reading _ hh).resolve_right he
  have htimeout : s.timeout = .none := by_contra fun hn => he (.inr hn)
  have hhanded : ∀ response, (.timeout, response) ∉ s.handed := fun r hr => hi.handed r hr htimeout
  have hcancel : s.timer.cancel = .queued .operationAborted := by rw [harmed]; rfl
  cases h with
  | headerFailed h hne =>
    rw [hh] at h
    simp only [HeaderTask.reading.injEq, Await.ready.injEq, Prod.mk.injEq] at h
    exact absurd h.1.symm hne
  | _ => exact ⟨rfl, .inl hcancel, htimeout, hhanded⟩

theorem sound_of_run (h : Run (Det step) (new upstreamInfo memory) as s) : s.Sound :=
  h.invariant (fun _ _ _ hi h => hi.step (step_cases h)) (.new upstreamInfo memory)

theorem Sound.not_expired (hi : s.Sound) (h : s.header = .spawned) : ¬ s.Expired := by
  have hidle := hi.fresh (.inr h)
  rintro (⟨ec, ht, -⟩ | ht)
  · simp [hidle] at ht
  · simp [hi.timer ht] at hidle

end HttpSession

namespace System

variable {s t : System} {e : Event} {as : List Event} {cfg : Config} {memory : ConnId → Bytes} {now : ℚ}
  {c : ConnId}

/-! ### The clock and the timers -/

theorem timers_serverStep {e : Server.Event} (h : s.serverStep e = some t) :
    t.timers = s.timers ∧ t.now = s.now := by
  rw [(of_serverStep h).2]
  exact ⟨rfl, rfl⟩

theorem timers_sslHandshake {files : TlsFiles} {e : Bool → Server.Event} (h : s.sslHandshake files e = some t) :
    t.timers = s.timers ∧ t.now = s.now := by
  have ht := timers_serverStep (of_sslHandshake h)
  exact ht

theorem timers_completionHandler {p : Port} {files : TlsFiles} (h : s.completionHandler p c files = some t) :
    t.timers = s.timers ∧ t.now = s.now := by
  cases p with
  | http => exact timers_serverStep h
  | https => exact timers_sslHandshake h

/-- The clock does not go back; a timer is started by the handler that starts to read. -/
theorem Step.timers (h : Step s e t) : s.now ≤ t.now ∧
    ((t.timers = s.timers ∧ ∀ c, e ≠ .runStart c true) ∨
      ∃ c, e = .runStart c true ∧ t.timers = Function.update s.timers c (some s.now)) := by
  cases h with
  | tick hn => exact ⟨hn, .inl ⟨rfl, by simp⟩⟩
  | accepted _ ht | runSniff _ ht | timerExpires _ _ ht | decide _ _ ht | runHeader _ _ ht | server _ ht =>
    obtain ⟨htimers, hnow⟩ := timers_serverStep ht
    exact ⟨hnow.ge, .inl ⟨htimers, by simp⟩⟩
  | dispatch _ _ ht =>
    obtain ⟨htimers, hnow⟩ := timers_completionHandler ht
    exact ⟨hnow.ge, .inl ⟨htimers, by simp⟩⟩
  | runSniffTls _ ht =>
    obtain ⟨htimers, hnow⟩ := timers_sslHandshake ht
    exact ⟨hnow.ge, .inl ⟨htimers, by simp⟩⟩
  | @runStart c ok t ht =>
    obtain ⟨htimers, hnow⟩ := timers_serverStep ht
    cases ok with
    | false => exact ⟨hnow.ge, .inl ⟨htimers, by simp⟩⟩
    | true => exact ⟨hnow.ge, .inr ⟨c, rfl, htimers⟩⟩
  | closeAcceptors ht | listener _ ht =>
    rw [(of_listenerStep ht).2]
    exact ⟨le_rfl, .inl ⟨rfl, by simp⟩⟩

theorem session_of_serverStep {u : System} {e : HttpSession.Event} (h : u.serverStep (.session c e) = some t) :
    ∃ session session', u.conns c = .http session ∧ session.Step e session' ∧ t.conns c = .http session' := by
  obtain ⟨session, session', hc, hs, ht⟩ := Server.session_inv (of_serverStep h).1
  refine ⟨session, session', hc, HttpSession.step_cases hs, ?_⟩
  have hconns := congrArg (fun server : Server => server.conns c) ht
  exact hconns.trans ((Server.setConn_conns _ _ _ _).trans (if_pos rfl))

theorem Step.runStart_inv {ok : Bool} (h : Step s (.runStart c ok) t) :
    ∃ session, s.conns c = .http session ∧ session.header = .spawned := by
  cases h with
  | runStart ht =>
    obtain ⟨session, session', hc, hst, -⟩ := session_of_serverStep ht
    refine ⟨session, hc, ?_⟩
    cases hst with
    | startFailed h | obtainHeader h => exact h

theorem Step.runHeader_inv (h : Step s (.runHeader c) t) : ∃ session session' allowed,
    s.conns c = .http session ∧ session.Step (.runHeader allowed) session' ∧ t.conns c = .http session' := by
  cases h with
  | decide hc ha ht | runHeader hc ha ht =>
    obtain ⟨session, session', hc, hst, hc'⟩ := session_of_serverStep ht
    exact ⟨session, session', _, hc, hst, hc'⟩

theorem Step.timerExpires_inv (h : Step s (.timerExpires c) t) :
    ∃ start, s.timers c = some start ∧ start + headerTimeout ≤ s.now := by
  cases h with
  | timerExpires hc hn _ => exact ⟨_, hc, hn⟩

structure Timed (first : System) (as : List Event) (s : System) : Prop where
  started : ∀ c start, s.timers c = some start →
    ∃ pre post u, as = pre ++ .runStart c true :: post ∧ Run (Det System.step) first pre u ∧ u.now = start
  expired : ∀ c session, s.conns c = .http session → session.Expired →
    ∃ start, s.timers c = some start ∧ start + headerTimeout ≤ s.now

theorem Timed.started_step {first : System} (hi : Timed first as s) (hr : Run (Det System.step) first as s)
    (h : Step s e t) {start : ℚ} (ht : t.timers c = some start) : ∃ pre post u,
    as ++ [e] = pre ++ .runStart c true :: post ∧ Run (Det System.step) first pre u ∧ u.now = start := by
  have hold (hs : s.timers c = some start) : ∃ pre post u,
      as ++ [e] = pre ++ .runStart c true :: post ∧ Run (Det System.step) first pre u ∧ u.now = start := by
    obtain ⟨pre, post, u, rfl, hu, hn⟩ := hi.started c start hs
    exact ⟨pre, post ++ [e], u, by simp, hu, hn⟩
  rcases h.timers.2 with ⟨heq, -⟩ | ⟨c', rfl, heq⟩ <;> rw [heq] at ht
  · exact hold ht
  · rcases eq_or_ne c c' with rfl | hne
    · rw [Function.update_self, Option.some.injEq] at ht
      exact ⟨as, [], s, rfl, hr, ht⟩
    · rw [Function.update_of_ne hne] at ht
      exact hold ht

theorem Step.timer_kept (h : Step s e t) (he : e ≠ .runStart c true) : t.timers c = s.timers c := by
  rcases h.timers.2 with ⟨heq, -⟩ | ⟨c', rfl, heq⟩ <;> rw [heq]
  have hne : c ≠ c' := by
    rintro rfl
    exact he rfl
  exact Function.update_of_ne hne _ _

theorem Timed.expired_step {first : System} {session : HttpSession} (hi : Timed first as s) (h : Step s e t)
    (hsound : ∀ session, s.conns c = .http session → session.Sound)
    (hc : t.conns c = .http session) (hx : session.Expired) :
    ∃ start, t.timers c = some start ∧ start + headerTimeout ≤ t.now := by
  have hlater : ∀ start, s.timers c = some start → start + headerTimeout ≤ s.now → e ≠ .runStart c true →
      ∃ start, t.timers c = some start ∧ start + headerTimeout ≤ t.now := fun start hs hn he =>
    ⟨start, (h.timer_kept he).trans hs, hn.trans h.timers.1⟩
  have hold : ∀ session₀, s.conns c = .http session₀ → session₀.Expired →
      ∃ start, t.timers c = some start ∧ start + headerTimeout ≤ t.now := by
    intro session₀ hs hx₀
    obtain ⟨start, hstart, hn⟩ := hi.expired c session₀ hs hx₀
    refine hlater start hstart hn ?_
    rintro rfl
    obtain ⟨session₁, hs₁, hspawned⟩ := h.runStart_inv
    obtain rfl := Conn.http.inj (hs.symm.trans hs₁)
    exact (hsound _ hs).not_expired hspawned hx₀
  obtain ⟨event, hmoves, hevent⟩ := h.moves c
  rw [hc] at hmoves
  generalize hs : s.conns c = conn at hmoves
  cases hmoves with
  | stays => exact hold session hs hx
  | early _ _ hn =>
    rw [hn _ rfl] at hx
    rcases hx with ⟨ec, hx, -⟩ | hx
    · cases hx
    · exact absurd rfl hx
  | session hst he =>
    rcases hst.expired hx with hx | rfl
    · exact hold _ hs hx
    · obtain rfl := (hevent _ (by simpa using he)).timerExpires_inv
      obtain ⟨start, hstart, hn⟩ := h.timerExpires_inv
      exact hlater start hstart hn (by simp)

theorem timed_of_run (h : Run (Det step) (new cfg memory now) as s) : Timed (new cfg memory now) as s := by
  refine (h.trace_invariant (I := fun as s => Run (Det System.step) (new cfg memory now) as s ∧
    Timed (new cfg memory now) as s) ⟨.nil _, by constructor <;> simp [System.new]⟩ ?_).2
  rintro as s e t ⟨hr, hi⟩ hst
  have h := step_cases hst
  refine ⟨hr.append (.single hst), fun c start => hi.started_step hr h,
    fun c session => hi.expired_step h fun session hc => ?_⟩
  obtain ⟨es, hes, -⟩ := session_of_run hr hc
  exact HttpSession.sound_of_run hes

/-! ### A header that comes in time -/

/-- Nothing of the connection's header timeout is left. -/
def Disarmed (conn : Conn) : Prop := conn = .closed ∨ ∃ session, conn = .http session ∧ session.Defused

theorem Disarmed.moves {conn conn' : Conn} {upstreamInfo : UpstreamInfo} {bytes : Bytes}
    {event : Option HttpSession.Event} (hc : Disarmed conn) (h : conn.Moves upstreamInfo bytes event conn') :
    Disarmed conn' := by
  cases h with
  | stays => exact hc
  | early hn hs _ =>
    rcases hc with hc | ⟨session, hc, -⟩
    · exact absurd hc hn
    · exact absurd hc (hs session)
  | session hs _ =>
    rcases hc with hc | ⟨session, hc, hd⟩
    · cases hc
    · obtain rfl := Conn.http.inj hc
      exact .inr ⟨_, rfl, hd.step hs⟩
  | ends => exact .inl rfl

theorem Disarmed.run (hi : Disarmed (s.conns c)) (h : Run (Det step) s as t) : Disarmed (t.conns c) :=
  h.invariant (I := fun u => Disarmed (u.conns c)) (fun _ _ _ hd hst => by
    obtain ⟨event, hmoves, -⟩ := (step_cases hst).moves c
    exact hd.moves hmoves) hi

/-- The timer of a header that has been handled is not started again. -/
theorem Concluded.timer_kept (hi : Concluded (s.conns c)) (h : Run (Det step) s as t) :
    t.timers c = s.timers c := by
  have hinv : Concluded (t.conns c) ∧ t.timers c = s.timers c := by
    refine h.invariant (I := fun u => Concluded (u.conns c) ∧ u.timers c = s.timers c) ?_ ⟨hi, rfl⟩
    rintro u e w ⟨hd, ht⟩ hst
    have h := step_cases hst
    obtain ⟨event, hmoves, -⟩ := h.moves c
    refine ⟨hd.moves hmoves, (h.timer_kept ?_).trans ht⟩
    rintro rfl
    obtain ⟨session, hc, hs⟩ := h.runStart_inv
    rcases hd with hd | ⟨session₀, hc₀, hd⟩
    · simp [hc] at hd
    · obtain rfl := Conn.http.inj (hc.symm.trans hc₀)
      simp [hd] at hs
  exact hinv.2

/-- A client is answered with 408 only when five seconds have passed since the read of its header was
started; a header that has been read and is handled before that keeps the 408 off for good. -/
theorem header_timeout {session : HttpSession} {response : Bytes}
    (h : Run (Det step) (new cfg memory now) as s) (hc : s.conns c = .http session)
    (hr : (.timeout, response) ∈ session.handed) :
    ∃ pre post u, as = pre ++ .runStart c true :: post ∧ Run (Det step) (new cfg memory now) pre u ∧
      u.now + headerTimeout ≤ s.now ∧
      ∀ mid rest v session' raw, as = mid ++ .runHeader c :: rest → Run (Det step) (new cfg memory now) mid v →
        v.conns c = .http session' → session'.header = .reading (.ready (.success, raw)) →
        u.now + headerTimeout ≤ v.now := by
  have hti := timed_of_run h
  obtain ⟨es, hes, -⟩ := session_of_run h hc
  have hx : session.Expired := .inr ((HttpSession.watched_of_run hes).handed response hr)
  obtain ⟨start, hstart, hn⟩ := hti.expired c session hc hx
  obtain ⟨pre, post, u, has, hu, rfl⟩ := hti.started c start hstart
  refine ⟨pre, post, u, has, hu, hn, fun mid rest v session' raw heq hv hc' hh => ?_⟩
  by_contra hlt
  rw [heq] at h
  obtain ⟨v', hv', hrest⟩ := h.append_inv
  obtain rfl := Lts.run_det_unique hv hv'
  obtain ⟨es', hes', -⟩ := session_of_run hv hc'
  have hwatched := HttpSession.watched_of_run hes'
  have htv := timed_of_run hv
  cases hrest with
  | @cons _ w _ _ _ hst hrest =>
    have hstep := step_cases hst
    obtain ⟨session₀, session₁, allowed, h₀, hst', h₁⟩ := hstep.runHeader_inv
    obtain rfl := Conn.http.inj (hc'.symm.trans h₀)
    have hkept : s.timers c = v.timers c :=
      (Concluded.timer_kept (.inr ⟨session₁, h₁, hst'.runHeader_done⟩) hrest).trans (hstep.timer_kept (by simp))
    have hx' : ¬ session'.Expired := by
      intro hx'
      obtain ⟨start, hs', hn'⟩ := htv.expired c session' hc' hx'
      rw [← hkept, hstart] at hs'
      obtain rfl := Option.some.inj hs'
      exact hlt hn'
    rcases Disarmed.run (.inr ⟨session₁, h₁, hst'.defused hwatched hh hx'⟩) hrest with hd | ⟨session₂, hc₂, hd⟩
    · simp [hc] at hd
    · obtain rfl := Conn.http.inj (hc.symm.trans hc₂)
      exact hd.handed response hr

/-- A client connects and sends nothing for five seconds. -/
def silentClient : List Event :=
  connects 0 ++ [.tick 5, .timerExpires 0, .server (.session 0 .runTimer), .server (.session 0 .runTimeout)]

theorem header_timeout_silent : ∃ s session, Run (Det step) (new {} (fun _ => []) 0) silentClient s ∧
    s.conns 0 = .http session ∧ (.timeout, timeoutResponse) ∈ session.handed ∧
    ∃ pre post u, silentClient = pre ++ .runStart 0 true :: post ∧
      Run (Det step) (new {} (fun _ => []) 0) pre u ∧ u.now + headerTimeout ≤ s.now := by
  obtain ⟨s, h, hs⟩ := Lts.exists_run (p := fun s : System => (s.conns 0).session?.any fun session =>
      session.handed = [(.timeout, timeoutResponse)])
    (show ((silentClient.foldlM step (new {} (fun _ => []) 0)).any _) = true by decide +kernel)
  obtain ⟨session, hc, hh⟩ := (Option.any_eq_true _ _).1 hs
  have hc := Conn.session?_eq_some.1 hc
  have hr : (.timeout, timeoutResponse) ∈ session.handed := by
    rw [of_decide_eq_true hh]
    exact List.mem_singleton_self _
  obtain ⟨pre, post, u, has, hu, hn, -⟩ := header_timeout h hc hr
  exact ⟨s, session, h, hc, hr, pre, post, u, has, hu, hn⟩

end System

end MarketBridge
