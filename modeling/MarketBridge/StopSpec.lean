import MarketBridge.SessionExchange

/-!
# What `stop` reaches

`stop` closes the client socket of a session that has not been stopped before. It reaches neither the
operations of the outgoing session nor, once the header timeout has set `stopped_`, the write of the timeout
response; `Unstoppable` says that one of these is pending.
-/

namespace MarketBridge

/-- The relay has been written, and its coroutine closes the client socket next. -/
def OutgoingTask.isClosing : OutgoingTask → Bool
  | relaying op => !op.isPending
  | _ => false

/-- The next handler starts an upstream operation. -/
def OutgoingTask.goesOn : OutgoingTask → Bool
  | waiting _ (.ready ec) => ec = .success
  | reading (.ready (ec, _)) => ec = .success
  | _ => false

namespace HttpSession

variable {s t : HttpSession} {e : Event}

/-- No operation is pending on a closed client socket; a stopped session has closed its socket or writes the
timeout response; the timer runs once. -/
structure Sound (s : HttpSession) : Prop where
  reading : s.header = .reading .pending → s.isOpen = true
  write : s.isWriting = true → s.isOpen = true
  stopped : s.stopped = true → s.isOpen = true → ∃ op, s.timeout = .writing op
  writing : ∀ op, s.timeout = .writing op → s.stopped = true
  timer : s.timeout ≠ .none → s.timer = .done
  fresh : s.header = .constructed ∨ s.header = .spawned → s.timer = .idle

theorem Sound.new (upstreamInfo : UpstreamInfo) (memory : Bytes) : (new upstreamInfo memory).Sound := by
  constructor <;> simp [HttpSession.new, isWriting_iff]

theorem Sound.shutdown (hi : s.Sound) : s.shutdown.Sound where
  reading h := by cases hh : s.header <;> simp [HttpSession.shutdown, hh, HeaderTask.close] at h
  write h := by simp [isWriting_shutdown] at h
  stopped _ h := by simp [HttpSession.shutdown] at h
  writing op h := by
    rcases ht : s.timeout with _ | _ | op' | _ <;> simp [HttpSession.shutdown, ht, TimeoutTask.close] at h
    exact hi.writing op' ht
  timer h := hi.timer fun ht => h (by simp [HttpSession.shutdown, ht, TimeoutTask.close])
  fresh h := by
    refine hi.fresh ?_
    rcases hh : s.header with _ | _ | _ | _ <;> simp [HttpSession.shutdown, hh, HeaderTask.close] at h ⊢

theorem Sound.requestStop (hi : s.Sound) (hs : s.stopped = true) (caller : StopCaller) :
    (s.requestStop caller).Sound :=
  ⟨hi.reading, hi.write, fun _ => hi.stopped hs, fun _ _ => rfl, hi.timer, hi.fresh⟩

theorem Sound.stopHandler (hi : s.Sound) : s.stopHandler.Sound := by
  rcases stopHandler_cases s with ⟨hs, h⟩ | ⟨-, h⟩ <;> rw [h]
  · exact hi.requestStop hs .stop
  · obtain ⟨h₁, h₂, h₃, -, h₅, h₆⟩ := hi.shutdown
    exact ⟨h₁, h₂, fun _ h => by simp [HttpSession.shutdown] at h, fun _ _ => rfl, h₅, h₆⟩

theorem Sound.timeoutEnds (hi : s.Sound) (ht : s.timeout ≠ .none) (hs : s.stopped = true → s.isOpen = false) :
    Sound { s with timeout := .done } where
  reading := hi.reading
  write h := hi.write (isWriting_mono (t := { s with timeout := .done }) (by simp) id id h)
  stopped h h' := by simp [hs h] at h'
  writing op h := by simp at h
  timer _ := hi.timer ht
  fresh := hi.fresh

theorem Sound.outgoing (hi : s.Sound) {outgoing : OutgoingTask} (session : OutgoingSession)
    (h : outgoing ≠ .relaying .pending) : Sound { s with outgoing, outgoingSession := session } := by
  have hw : HttpSession.isWriting { s with outgoing, outgoingSession := session } = true →
      s.isWriting = true := isWriting_mono id id (absurd · h)
  exact ⟨hi.reading, fun h => hi.write (hw h), hi.stopped, hi.writing, hi.timer, hi.fresh⟩

theorem Sound.reply (hi : s.Sound) {reply : ReplyTask} (h : reply ≠ .writing .pending) :
    Sound { s with reply } := by
  have hw : HttpSession.isWriting { s with reply } = true → s.isWriting = true :=
    isWriting_mono id (absurd · h) id
  exact ⟨hi.reading, fun h => hi.write (hw h), hi.stopped, hi.writing, hi.timer, hi.fresh⟩

theorem Sound.headerEnds (hi : s.Sound) : Sound { s with header := .done } :=
  ⟨by simp, hi.write, hi.stopped, hi.writing, hi.timer, by simp⟩

theorem Sound.cancel (hi : s.Sound) (h : s.header = .done) : Sound { s with timer := s.timer.cancel } where
  reading := hi.reading
  write := hi.write
  stopped := hi.stopped
  writing := hi.writing
  timer ht := by simp [hi.timer ht, HeaderTimer.cancel]
  fresh hh := by simp [h] at hh

theorem Sound.closed_of_timer (hi : s.Sound) (h : s.timer ≠ .done) (hs : s.stopped = true) :
    s.isOpen = false := by
  refine Bool.eq_false_iff.2 fun ho => ?_
  obtain ⟨op, ht⟩ := hi.stopped hs ho
  exact h (hi.timer (by simp [ht]))

theorem Sound.closed_of_spawned {ec : ErrorCode} (hi : s.Sound) (h : s.timeout = .spawned ec)
    (hs : s.stopped = true) : s.isOpen = false := by
  refine Bool.eq_false_iff.2 fun ho => ?_
  obtain ⟨op, ht⟩ := hi.stopped hs ho
  simp [h] at ht

theorem Sound.isOpen_of_isWriting (hi : s.Sound) (h : t.isWriting = true)
    (ht : t.timeout = .writing .pending → s.timeout = .writing .pending ∨ s.isOpen = true)
    (hr : t.reply = .writing .pending → s.reply = .writing .pending ∨ s.isOpen = true)
    (ho : t.outgoing = .relaying .pending → s.outgoing = .relaying .pending ∨ s.isOpen = true) :
    s.isOpen = true := by
  rcases isWriting_iff.1 h with h | h | h
  · exact (ht h).elim (fun h => hi.write (isWriting_iff.2 (.inl h))) id
  · exact (hr h).elim (fun h => hi.write (isWriting_iff.2 (.inr (.inl h)))) id
  · exact (ho h).elim (fun h => hi.write (isWriting_iff.2 (.inr (.inr h)))) id

theorem clientWrite_eq_pending : s.clientWrite = .pending ↔ s.isOpen = true := Await.start_eq_pending

theorem Sound.stopHandler_closed {ec : ErrorCode} (hi : s.Sound) (h : s.timeout = .spawned ec) :
    s.stopHandler.isOpen = false := by
  rcases stopHandler_cases s with ⟨hs, he⟩ | ⟨-, he⟩ <;> rw [he]
  · exact hi.closed_of_spawned h hs
  · rfl

theorem stopHandler_timeout {ec : ErrorCode} (h : s.timeout = .spawned ec) :
    s.stopHandler.timeout = .spawned ec := by
  rcases stopHandler_cases s with ⟨-, he⟩ | ⟨-, he⟩ <;> rw [he]
  · exact h
  · simp [shutdown, requestStop, h, TimeoutTask.close]

theorem Sound.step (hi : s.Sound) (h : Step s e t) : t.Sound := by
  have hnone : s.timer ≠ .done → s.timeout = .none := by
    intro h
    by_contra ht
    exact h (hi.timer ht)
  cases h with
  | start h => exact ⟨by simp, hi.write, hi.stopped, hi.writing, hi.timer, fun _ => hi.fresh (.inl h)⟩
  | stop => exact ⟨hi.reading, hi.write, hi.stopped, hi.writing, hi.timer, hi.fresh⟩
  | headerRead h => exact ⟨by simp, hi.write, hi.stopped, hi.writing, hi.timer, by simp⟩
  | timerExpires h =>
    refine ⟨hi.reading, hi.write, hi.stopped, hi.writing, absurd (hnone (by simp [h])), fun hh => ?_⟩
    simp [hi.fresh hh] at h
  | startFailed | headerFailed => exact hi.headerEnds
  | obtainHeader h =>
    have hn := hnone (by simp [hi.fresh (.inr h)])
    exact ⟨fun h => Await.start_eq_pending.1 (by simpa using h), hi.write, hi.stopped, hi.writing,
      fun h => absurd hn h, by simp⟩
  | headerDropped => exact hi.headerEnds.cancel rfl
  | disallow =>
    have hr : ReplyTask.disallow ≠ .writing .pending := by simp
    obtain ⟨h₁, h₂, h₃, h₄, h₅, h₆⟩ := (hi.headerEnds.cancel rfl).reply hr
    exact ⟨h₁, h₂, h₃, h₄, h₅, h₆⟩
  | @health raw =>
    have hr : ReplyTask.health (parseRequest raw) ≠ .writing .pending := by simp
    obtain ⟨h₁, h₂, h₃, h₄, h₅, h₆⟩ := (hi.headerEnds.cancel rfl).reply hr
    exact ⟨h₁, h₂, h₃, h₄, h₅, h₆⟩
  | forward =>
    have ho : OutgoingTask.spawned ≠ .relaying .pending := by simp
    obtain ⟨h₁, h₂, h₃, h₄, h₅, h₆⟩ := (hi.headerEnds.cancel rfl).outgoing {} ho
    exact ⟨h₁, h₂, h₃, h₄, h₅, h₆⟩
  | timerCancelled h =>
    refine ⟨hi.reading, hi.write, hi.stopped, hi.writing, fun _ => rfl, fun hh => ?_⟩
    simp [hi.fresh hh] at h
  | timerFired h =>
    refine ⟨hi.reading, fun hw => hi.isOpen_of_isWriting hw (by simp) .inl .inl, fun hs ho => ?_, by simp,
      fun _ => rfl, fun hh => ?_⟩
    · simp [hi.closed_of_timer (by simp [h]) hs] at ho
    · simp [hi.fresh hh] at h
  | timeoutCancelled h => exact hi.timeoutEnds (by simp [h]) (hi.closed_of_spawned h)
  | timeoutFailed h =>
    have ht : s.stopHandler.timeout ≠ .none := by simp [stopHandler_timeout h]
    exact hi.stopHandler.timeoutEnds ht fun _ => hi.stopHandler_closed h
  | timeoutLate h hs =>
    have ht : (s.requestStop .headerTimeout).timeout ≠ .none := by simp [HttpSession.requestStop, h]
    exact (hi.requestStop hs .headerTimeout).timeoutEnds ht fun _ => hi.closed_of_spawned h hs
  | timeoutReply h =>
    refine ⟨hi.reading, fun hw => hi.isOpen_of_isWriting hw (fun h => .inr ?_) .inl .inl, fun _ _ => ⟨_, rfl⟩,
      fun _ _ => rfl, fun _ => hi.timer (by simp [h]), hi.fresh⟩
    exact clientWrite_eq_pending.1 (by simpa using h)
  | timeoutDone h =>
    have ht : s.shutdown.timeout ≠ .none := by simp [HttpSession.shutdown, h, TimeoutTask.close]
    exact hi.shutdown.timeoutEnds ht fun _ => rfl
  | timeoutWritten h =>
    exact ⟨hi.reading, fun hw => hi.isOpen_of_isWriting hw (by simp) .inl .inl, fun _ _ => ⟨_, rfl⟩,
      fun _ _ => hi.writing _ h, fun _ => hi.timer (by simp [h]), hi.fresh⟩
  | replyWritten h | replyDone h => exact hi.reply (by simp)
  | replyDisallow h | replyHealth h =>
    refine ⟨hi.reading, fun hw => hi.isOpen_of_isWriting hw .inl (fun h => .inr ?_) .inl, hi.stopped,
      hi.writing, hi.timer, hi.fresh⟩
    exact clientWrite_eq_pending.1 (by simpa using h)
  | @runStop n =>
    exact Sound.stopHandler (s := { s with stops := n })
      ⟨hi.reading, hi.write, hi.stopped, hi.writing, hi.timer, hi.fresh⟩
  | relayWritten h | upstreamDone h | upstreamRead h | sslFailed h | resolve h | connect h | onConnect h
  | sendRequest h | readResponse h | readChunk h | upstreamFailed h | readFailed h =>
    exact hi.outgoing _ (by simp)
  | relay h =>
    refine ⟨hi.reading, fun hw => hi.isOpen_of_isWriting hw .inl .inl (fun h => .inr ?_), hi.stopped,
      hi.writing, hi.timer, hi.fresh⟩
    exact clientWrite_eq_pending.1 (by simpa using h)
  | relayDone h => exact hi.shutdown.outgoing _ (by simp)

/-- A `stop` that has been called stays queued until it is handled. -/
theorem Step.stop_kept (h : Step s e t) (hs : s.stops ≠ 0 ∨ s.stopped = true) :
    t.stops ≠ 0 ∨ t.stopped = true := by
  have hst : ∀ s : HttpSession, s.stopHandler.stopped = true := by
    intro s
    rcases stopHandler_cases s with ⟨-, he⟩ | ⟨-, he⟩ <;> rw [he] <;> rfl
  cases h with
  | stop => exact .inl (by simp)
  | timeoutFailed | runStop => exact .inr (hst _)
  | timeoutLate | timeoutReply => exact .inr rfl
  | _ => exact hs

theorem Step.constructed (h : Step s e t) (he : e ≠ .start) (hh : s.header = .constructed) :
    t.header = .constructed := by
  have hst : ∀ s : HttpSession, s.header = .constructed → s.stopHandler.header = .constructed := by
    intro s hs
    rcases stopHandler_cases s with ⟨-, he⟩ | ⟨-, he⟩ <;> rw [he]
    · exact hs
    · simp [shutdown, requestStop, hs, HeaderTask.close]
  cases h with
  | start => exact absurd rfl he
  | headerRead h | startFailed h | obtainHeader h | headerFailed h | headerDropped h | disallow h | health h
  | forward h => simp [hh] at h
  | timeoutFailed => exact hst s hh
  | @runStop n => exact hst { s with stops := n } hh
  | timeoutDone | relayDone => simp [shutdown, hh, HeaderTask.close]
  | _ => exact hh

/-! ### Operations that `stop` does not reach -/

/-- An upstream operation is pending, or the write of the timeout response is and no relay is about to close
the socket. -/
def Unstoppable (s : HttpSession) : Prop :=
  s.outgoing.isPending = true ∨ s.timeout = .writing .pending ∧ s.outgoing.isClosing = false

instance (s : HttpSession) : Decidable s.Unstoppable := inferInstanceAs (Decidable (_ ∨ _ ∧ _))

def startsUnstoppable (s : HttpSession) : Event → Bool
  | .startOutgoing sslOk => sslOk
  | .runOutgoing => s.outgoing.goesOn
  | .runTimeout => s.timeout = .spawned .success && !s.stopped && s.isOpen && !s.outgoing.isClosing
  | _ => false

theorem shutdown_timeout (s : HttpSession) : s.shutdown.timeout ≠ .writing .pending := by
  cases h : s.timeout <;> simp [shutdown, h, TimeoutTask.close]

theorem shutdown_not_unstoppable (h : s.outgoing.isPending = false) : ¬ s.shutdown.Unstoppable := by
  rintro (hp | ⟨ht, -⟩)
  · cases ho : s.outgoing <;> simp_all [shutdown, OutgoingTask.close, OutgoingTask.isPending]
  · exact shutdown_timeout s ht

theorem stopHandler_not_unstoppable (hu : ¬ s.Unstoppable) : ¬ s.stopHandler.Unstoppable := by
  rcases stopHandler_cases s with ⟨-, he⟩ | ⟨-, he⟩ <;> rw [he]
  · exact hu
  · exact shutdown_not_unstoppable (Bool.eq_false_iff.2 fun hp => hu (.inl hp))

theorem Step.not_unstoppable (hx : s.Exclusive) (h : Step s e t) (hu : ¬ s.Unstoppable)
    (hs : s.startsUnstoppable e = false) : ¬ t.Unstoppable := by
  have hp : s.outgoing.isPending ≠ true := fun hp => hu (.inl hp)
  have ht : s.outgoing.isClosing = false → s.timeout ≠ .writing .pending := fun ho ht =>
    hu (.inr ⟨ht, ho⟩)
  cases h with
  | start | stop | headerRead | timerExpires | replyWritten | startFailed | obtainHeader | headerFailed
  | headerDropped | disallow | health | timerCancelled | replyDisallow | replyHealth | replyDone => exact hu
  | timeoutWritten | timerFired | timeoutCancelled | timeoutLate =>
    rintro (h | ⟨h, -⟩)
    · exact hp h
    · simp at h
  | timeoutFailed =>
    rintro (h | ⟨h, -⟩)
    · exact stopHandler_not_unstoppable hu (.inl h)
    · simp at h
  | timeoutReply h hst =>
    rintro (hp' | ⟨ht', ho⟩)
    · exact hp hp'
    · have hopen := clientWrite_eq_pending.1 (by simpa using ht')
      simp [startsUnstoppable, h, hst, hopen, show s.outgoing.isClosing = false from ho] at hs
  | timeoutDone =>
    rintro (h | ⟨h, -⟩)
    · exact shutdown_not_unstoppable (Bool.eq_false_iff.2 hp) (.inl h)
    · simp at h
  | @runStop n => exact stopHandler_not_unstoppable (s := { s with stops := n }) hu
  | forward h =>
    have ho := hx.outgoing_eq_none (by simp [h])
    rintro (h | ⟨h, -⟩)
    · simp [OutgoingTask.isPending] at h
    · exact ht (by simp [ho, OutgoingTask.isClosing]) h
  | upstreamDone h | upstreamRead h => exact absurd (by simp [h, OutgoingTask.isPending, Await.isPending]) hp
  | resolve => simp [startsUnstoppable] at hs
  | connect h | onConnect h | sendRequest h | readResponse h | readChunk h =>
    simp [startsUnstoppable, h, OutgoingTask.goesOn] at hs
  | sslFailed h | upstreamFailed h | readFailed h | relay h =>
    rintro (h' | ⟨h', -⟩)
    · simp [OutgoingTask.isPending] at h'
    · exact ht (by simp [h, OutgoingTask.isClosing]) h'
  | relayWritten h =>
    rintro (h' | ⟨-, h'⟩)
    · simp [OutgoingTask.isPending] at h'
    · simp [OutgoingTask.isClosing, Await.isPending] at h'
  | relayDone =>
    rintro (h | ⟨h, -⟩)
    · simp [OutgoingTask.isPending] at h
    · exact shutdown_timeout s h

/-- The event completes an operation from outside: a peer or the resolver has answered. -/
def Event.byPeer : Event → Bool
  | .headerRead .. | .timeoutWritten _ | .replyWritten _ | .relayWritten _ | .upstreamDone ..
  | .upstreamRead .. => true
  | _ => false

theorem isPending_close (o : OutgoingTask) : o.close.isPending = o.isPending := by
  cases o <;> simp [OutgoingTask.close, OutgoingTask.isPending]

theorem stopHandler_isPending (s : HttpSession) :
    s.stopHandler.outgoing.isPending = s.outgoing.isPending := by
  rcases stopHandler_cases s with ⟨-, he⟩ | ⟨-, he⟩ <;> rw [he]
  · rfl
  · exact isPending_close _

theorem Step.isPending (hx : s.Exclusive) (h : Step s e t) (he : e.byPeer = false)
    (hp : s.outgoing.isPending = true) : t.outgoing.isPending = true := by
  cases h with
  | headerRead | timeoutWritten | replyWritten | relayWritten | upstreamDone | upstreamRead =>
    simp [Event.byPeer] at he
  | forward h =>
    have ho := hx.outgoing_eq_none (by simp [h])
    simp [ho, OutgoingTask.isPending] at hp
  | sslFailed h | resolve h | upstreamFailed h | connect h | onConnect h | sendRequest h | readResponse h
  | readFailed h | readChunk h | relay h | relayDone h =>
    simp [h, OutgoingTask.isPending, Await.isPending] at hp
  | timeoutFailed => exact (stopHandler_isPending s).trans hp
  | timeoutDone => exact (isPending_close _).trans hp
  | @runStop n => exact (stopHandler_isPending { s with stops := n }).trans hp
  | _ => exact hp

/-- The write of the timeout response stays pending until it is answered: `stopped_` is set, so that `stop`
does not close the socket, and no relay is about to. -/
theorem Step.timeout_writing (hi : s.Sound) (h : Step s e t) (he : e.byPeer = false)
    (ht : s.timeout = .writing .pending) (ho : s.outgoing.isClosing = false) :
    t.timeout = .writing .pending ∧ t.outgoing.isClosing = false := by
  have hs := hi.writing _ ht
  have hopen := hi.write (isWriting_iff.2 (.inl ht))
  cases h with
  | headerRead | timeoutWritten | replyWritten | relayWritten | upstreamDone | upstreamRead =>
    simp [Event.byPeer] at he
  | timerFired h => simp [hi.timer (by simp [ht])] at h
  | timeoutCancelled h | timeoutFailed h | timeoutLate h | timeoutReply h | timeoutDone h => simp [ht] at h
  | @runStop n =>
    have he : stopHandler { s with stops := n } = requestStop { s with stops := n } .stop := by
      simp [stopHandler, hs]
    rw [he]
    exact ⟨ht, ho⟩
  | relay =>
    have hw : s.clientWrite = .pending := clientWrite_eq_pending.2 hopen
    exact ⟨ht, by simp [OutgoingTask.isClosing, hw, Await.isPending]⟩
  | relayDone h => simp [h, OutgoingTask.isClosing, Await.isPending] at ho
  | forward | sslFailed | resolve | upstreamFailed | connect | onConnect | sendRequest | readResponse
  | readFailed | readChunk => exact ⟨ht, rfl⟩
  | _ => exact ⟨ht, ho⟩

/-- Nothing that the session does by itself completes such an operation. -/
theorem Step.unstoppable (hi : s.Sound) (hx : s.Exclusive) (h : Step s e t) (he : e.byPeer = false)
    (hu : s.Unstoppable) : t.Unstoppable :=
  hu.imp (h.isPending hx he) fun ⟨ht, ho⟩ => h.timeout_writing hi he ht ho

theorem Step.starts (h : Step s e t) (hs : s.startsUnstoppable e = true) : t.Unstoppable := by
  cases h with
  | resolve | connect | onConnect | sendRequest | readResponse | readChunk => exact .inl rfl
  | timeoutReply h hst =>
    obtain ⟨ho, hc⟩ : s.isOpen = true ∧ s.outgoing.isClosing = false := by
      simpa [startsUnstoppable, h, hst] using hs
    exact .inr ⟨congrArg TimeoutTask.writing (clientWrite_eq_pending.2 ho), hc⟩
  | timeoutCancelled h | timeoutDone h => simp [h, startsUnstoppable] at hs
  | timeoutFailed h he | upstreamFailed h he | readFailed h he =>
    simp [h, he, startsUnstoppable, OutgoingTask.goesOn] at hs
  | timeoutLate h hst => simp [hst, startsUnstoppable] at hs
  | relay h | relayDone h => simp [h, startsUnstoppable, OutgoingTask.goesOn] at hs
  | _ => simp [startsUnstoppable] at hs

theorem not_unstoppable_of_constructed (hi : s.Sound) (hx : s.Exclusive) (h : s.header = .constructed) :
    ¬ s.Unstoppable := by
  have ho := hx.outgoing_eq_none (by simp [h])
  rintro (hp | ⟨ht, -⟩)
  · simp [ho, OutgoingTask.isPending] at hp
  · have := hi.timer (by simp [ht])
    simp [hi.fresh (.inl h)] at this

theorem isPending_of_unstoppable (hu : s.Unstoppable) : s.isPending = true := by
  rcases hu with h | ⟨h, -⟩
  · simp [HttpSession.isPending, h]
  · simp [HttpSession.isPending, isWriting_iff.2 (.inl h)]

theorem isReady_of_isClosing {o : OutgoingTask} (h : o.isClosing = true) : o.isReady = true := by
  cases o <;> simp_all [OutgoingTask.isClosing, OutgoingTask.isReady]

/-- A stopped session whose handlers have all run has no other operation pending. -/
theorem Sound.not_pending (hi : s.Sound) (hs : s.stopped = true) (hr : s.isReady = false)
    (hu : ¬ s.Unstoppable) : s.isPending = false := by
  have hc : s.isOpen = false := by
    refine Bool.eq_false_iff.2 fun ho => ?_
    obtain ⟨op, ht⟩ := hi.stopped hs ho
    cases op with
    | pending =>
      refine hu (.inr ⟨ht, Bool.eq_false_iff.2 fun hc => ?_⟩)
      simp [isReady, isReady_of_isClosing hc] at hr
    | ready ec => simp [isReady, ht, TimeoutTask.isReady, Await.isPending] at hr
  have hw : s.isWriting = false := Bool.eq_false_iff.2 fun hw => by simp [hi.write hw] at hc
  have hh : s.header.isPending = false := by
    refine Bool.eq_false_iff.2 fun hh => ?_
    rcases h : s.header with _ | _ | (_ | ⟨ec, raw⟩) | _ <;>
      simp [h, HeaderTask.isPending, Await.isPending] at hh
    simp [hi.reading h] at hc
  have ho : s.outgoing.isPending = false := Bool.eq_false_iff.2 fun hp => hu (.inl hp)
  simp [isPending, hh, hw, ho]

end HttpSession

end MarketBridge
