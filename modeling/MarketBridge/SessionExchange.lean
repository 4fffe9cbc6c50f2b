import MarketBridge.SessionStep
import MarketBridge.Exchange

/-!
# A session is an exchange

`view` forgets the coroutines of a session and keeps the exchange it carries out; every step of the session
is a step of the exchange (`Step.exchange`), so what holds of the runs of an exchange holds of the runs of a
session.
-/

namespace MarketBridge

def HeaderTask.ear : HeaderTask → Ear
  | constructed | spawned | reading .pending => .listening
  | reading (.ready (ec, _)) => if ec = .success then .heard else .closed
  | done => .closed

def ReplyTask.work : ReplyTask → Work
  | none => .none
  | disallow | health _ => .due
  | writing _ | done => .answered

/-- An outgoing session whose operation has failed hands nothing over any more. -/
def OutgoingTask.work : OutgoingTask → Work
  | none => .none
  | spawned | waiting _ .pending | reading .pending => .due
  | waiting _ (.ready ec) => if ec = .success then .due else .dropped
  | reading (.ready (ec, _)) => if ec = .success ∨ ec = .eof then .due else .dropped
  | relaying _ | done => .answered
  | failed => .dropped

theorem ReplyTask.work_eq_none {r : ReplyTask} : r.work = .none ↔ r = .none := by
  cases r <;> simp [work]

theorem OutgoingTask.work_eq_none {o : OutgoingTask} : o.work = .none ↔ o = .none := by
  rcases o with _ | _ | ⟨_, _ | _⟩ | (_ | _) | _ | _ | _ <;> simp [work] <;> split <;> simp

@[simp] theorem ReplyTask.work_close (r : ReplyTask) : r.close.work = r.work := by cases r <;> rfl

@[simp] theorem OutgoingTask.work_close (o : OutgoingTask) : o.close.work = o.work := by
  rcases o with _ | _ | _ | _ | _ | _ | _ <;> rfl

namespace HttpSession

variable {s t : HttpSession} {e : Event}

def work (s : HttpSession) : Work := if s.reply.work = .none then s.outgoing.work else s.reply.work

def view (s : HttpSession) : Exchange (ResponseKind × Bytes) where
  ear := s.header.ear
  stopped := s.stopped
  work := s.work
  writing := s.isWriting
  handed := s.handed
  clobbered := s.clobbered

def label (s : HttpSession) : Event → Exchange.Label
  | .headerRead ec _ => if ec = .success then .hear else .silent
  | .runHeader _ => if s.header.ear = .heard ∧ s.stopped = false then .dispatch else .silent
  | .upstreamDone _ ec => if ec = .success then .silent else .drop
  | .upstreamRead ec _ => if ec = .success ∨ ec = .eof then .silent else .drop
  | .startOutgoing sslOk => if sslOk then .silent else .drop
  | .runTimeout => if s.timeout = .spawned .success ∧ s.stopped = false then .timeout else .silent
  | .runReply => if s.reply.work = .due then .answer else .silent
  | .runOutgoing =>
    match s.outgoing with
    | .reading (.ready (.eof, _)) => .answer
    | _ => .silent
  | _ => .silent

/-- At most one of the replies and the outgoing session is ever spawned, and only when the header task is
over. -/
structure Exclusive (s : HttpSession) : Prop where
  one : s.reply.work = .none ∨ s.outgoing.work = .none
  header : s.header = .done ∨ s.reply.work = .none ∧ s.outgoing.work = .none

theorem Exclusive.new {upstreamInfo : UpstreamInfo} {memory : Bytes} :
    (new upstreamInfo memory).Exclusive :=
  ⟨.inl rfl, .inr ⟨rfl, rfl⟩⟩

theorem Exclusive.shutdown (hi : s.Exclusive) : s.shutdown.Exclusive := by
  refine ⟨by simpa [HttpSession.shutdown] using hi.one, ?_⟩
  rcases hi.header with h | h
  · exact .inl (by simp [HttpSession.shutdown, h, HeaderTask.close])
  · exact .inr (by simpa [HttpSession.shutdown] using h)

theorem Exclusive.outgoing_eq_none (hi : s.Exclusive) (h : s.header ≠ .done) : s.outgoing = .none :=
  OutgoingTask.work_eq_none.1 (hi.header.resolve_left h).2

theorem Exclusive.requestStop (hi : s.Exclusive) (caller : StopCaller) : (s.requestStop caller).Exclusive :=
  ⟨hi.one, hi.header⟩

theorem Exclusive.stopHandler (hi : s.Exclusive) : s.stopHandler.Exclusive := by
  unfold HttpSession.stopHandler
  split
  · exact (hi.requestStop .stop).shutdown
  · exact hi.requestStop .stop

theorem Exclusive.step (hi : s.Exclusive) (h : Step s e t) : t.Exclusive := by
  have hh : s.header ≠ .done → s.reply.work = .none ∧ s.outgoing.work = .none := hi.header.resolve_left
  have hr : s.reply.work ≠ .none → s.outgoing.work = .none ∧ s.header = .done := fun hw =>
    ⟨hi.one.resolve_left hw, hi.header.resolve_right fun h => hw h.1⟩
  have ho : s.outgoing.work ≠ .none → s.reply.work = .none ∧ s.header = .done := fun hw =>
    ⟨hi.one.resolve_right hw, hi.header.resolve_right fun h => hw h.2⟩
  cases h with
  | start h | headerRead h | startFailed h | obtainHeader h | headerFailed h | headerDropped h =>
    exact ⟨hi.one, .inr (hh (by simp [h]))⟩
  | disallow h | health h => exact ⟨.inr (hh (by simp [h])).2, .inl rfl⟩
  | forward h => exact ⟨.inl (hh (by simp [h])).1, .inl rfl⟩
  | stop | timerExpires | timeoutWritten | timerCancelled | timerFired | timeoutCancelled | timeoutLate
  | timeoutReply => exact ⟨hi.one, hi.header⟩
  | timeoutFailed => exact ⟨hi.stopHandler.one, hi.stopHandler.header⟩
  | timeoutDone => exact ⟨hi.shutdown.one, hi.shutdown.header⟩
  | @runStop n => exact Exclusive.stopHandler (s := { s with stops := n }) ⟨hi.one, hi.header⟩
  | replyWritten h | replyDisallow h | replyHealth h | replyDone h =>
    obtain ⟨hw, hd⟩ := hr (by simp [h, ReplyTask.work])
    exact ⟨.inr hw, .inl hd⟩
  | relayWritten h | upstreamDone h | upstreamRead h | sslFailed h | resolve h | connect h | onConnect h
  | sendRequest h | readResponse h | readChunk h | relay h =>
    obtain ⟨hw, hd⟩ := ho (by simp [h, OutgoingTask.work])
    exact ⟨.inl hw, .inl hd⟩
  | upstreamFailed h he =>
    obtain ⟨hw, hd⟩ := ho (by simp [h, he, OutgoingTask.work])
    exact ⟨.inl hw, .inl hd⟩
  | readFailed h he he' =>
    obtain ⟨hw, hd⟩ := ho (by simp [h, he, he', OutgoingTask.work])
    exact ⟨.inl hw, .inl hd⟩
  | relayDone h =>
    obtain ⟨hw, hd⟩ := ho (by simp [h, OutgoingTask.work])
    have hd' : s.shutdown.header = .done := by simp [HttpSession.shutdown, hd, HeaderTask.close]
    exact ⟨.inl (by simpa [HttpSession.shutdown] using hw), .inl hd'⟩

/-! ### The steps of the exchange -/

theorem isWriting_iff : s.isWriting = true ↔
    s.timeout = .writing .pending ∨ s.reply = .writing .pending ∨ s.outgoing = .relaying .pending := by
  have ht : s.timeout.isWriting = true ↔ s.timeout = .writing .pending := by
    cases s.timeout <;> simp [TimeoutTask.isWriting]
  have hr : s.reply.isWriting = true ↔ s.reply = .writing .pending := by
    cases s.reply <;> simp [ReplyTask.isWriting]
  have ho : s.outgoing.isWriting = true ↔ s.outgoing = .relaying .pending := by
    cases s.outgoing <;> simp [OutgoingTask.isWriting]
  rw [isWriting, Bool.or_eq_true, Bool.or_eq_true, ht, hr, ho, or_assoc]

theorem isWriting_mono (ht : t.timeout = .writing .pending → s.timeout = .writing .pending)
    (hr : t.reply = .writing .pending → s.reply = .writing .pending)
    (ho : t.outgoing = .relaying .pending → s.outgoing = .relaying .pending) :
    t.isWriting = true → s.isWriting = true := by
  rw [isWriting_iff, isWriting_iff]
  exact Or.imp ht (Or.imp hr ho)

theorem isWriting_shutdown (s : HttpSession) : s.shutdown.isWriting = false := by
  refine Bool.eq_false_iff.2 fun h => ?_
  rcases isWriting_iff.1 h with h | h | h
  · cases ht : s.timeout <;> simp [shutdown, ht, TimeoutTask.close] at h
  · cases hr : s.reply <;> simp [shutdown, hr, ReplyTask.close] at h
  · cases ho : s.outgoing <;> simp [shutdown, ho, OutgoingTask.close] at h

theorem ear_close (h : HeaderTask) : h.close.ear = h.ear ∨ h.close.ear = .closed ∧ h.ear = .listening := by
  rcases h with _ | _ | (_ | ⟨ec, raw⟩) | _ <;> simp [HeaderTask.close, HeaderTask.ear, Await.close]

theorem quiet_shutdown (s : HttpSession) : s.view.Quiet s.shutdown.view where
  ear := (ear_close s.header).imp_right fun h => ⟨h.1, fun hh => by simp [view, h.2] at hh⟩
  stopped := id
  work := by simp [view, work, shutdown]
  writing h := by simp [view, isWriting_shutdown] at h
  handed := rfl
  clobbered := rfl

theorem stopHandler_cases (s : HttpSession) :
    s.stopped = true ∧ s.stopHandler = s.requestStop .stop ∨
    s.stopped = false ∧ s.stopHandler = (s.requestStop .stop).shutdown := by
  cases h : s.stopped <;> simp [stopHandler, h]

theorem quiet_stopHandler (s : HttpSession) : s.view.Quiet s.stopHandler.view := by
  rcases stopHandler_cases s with ⟨-, h⟩ | ⟨-, h⟩ <;> rw [h]
  · exact ⟨.inl rfl, fun _ => rfl, rfl, id, rfl, rfl⟩
  · obtain ⟨he, -, hw, hwr, hh, hc⟩ := quiet_shutdown s
    exact ⟨he, fun _ => rfl, hw, hwr, hh, hc⟩

/-- The outgoing session moves on in its work. -/
theorem quiet_outgoing {outgoing : OutgoingTask} (session : OutgoingSession)
    (hw : outgoing.work = s.outgoing.work) (hr : outgoing ≠ .relaying .pending) :
    s.view.Quiet (view { s with outgoing, outgoingSession := session }) := by
  have hwork : work { s with outgoing, outgoingSession := session } = s.work := by
    unfold work
    split
    · exact hw
    · rfl
  exact ⟨.inl rfl, id, hwork, isWriting_mono id id (absurd · hr), rfl, rfl⟩

theorem quiet_reply {reply : ReplyTask} (hw : reply.work = s.reply.work) (hr : reply ≠ .writing .pending) :
    s.view.Quiet (view { s with reply }) := by
  have hwork : work { s with reply } = s.work := by
    unfold work
    rw [hw]
  exact ⟨.inl rfl, id, hwork, isWriting_mono id (absurd · hr) id, rfl, rfl⟩

theorem Exclusive.work_outgoing (hi : s.Exclusive) (h : s.outgoing.work ≠ .none) :
    s.reply.work = .none ∧ s.work = s.outgoing.work := by
  have hr := hi.one.resolve_right h
  exact ⟨hr, if_pos hr⟩

theorem work_reply (h : s.reply.work ≠ .none) : s.work = s.reply.work := if_neg h

theorem dispatch_of (he : s.header.ear = .heard) (hs : s.stopped = false)
    (ht : t.view = { s.view with ear := .closed, work := .due }) : Exchange.Step s.view .dispatch t.view :=
  ht ▸ .dispatch he hs

theorem answer_of {r : ResponseKind × Bytes} (hw : s.work = .due)
    (ht : t.view = { s.view.hand r t.isWriting with work := .answered }) :
    Exchange.Step s.view .answer t.view :=
  ht ▸ .answer hw r _

theorem drop_of (hw : s.work = .due) (ht : t.view = { s.view with work := .dropped }) :
    Exchange.Step s.view .drop t.view :=
  ht ▸ .drop hw

theorem Step.exchange (hi : s.Exclusive) (h : Step s e t) : Exchange.Step s.view (s.label e) t.view := by
  cases h with
  | start h => exact .silent ⟨.inl (by simp [view, h, HeaderTask.ear]), id, rfl, id, rfl, rfl⟩
  | stop | timerExpires | timerCancelled => exact .silent (.refl _)
  | @headerRead ec raw h hr =>
    by_cases he : ec = .success
    · subst he
      exact Exchange.Step.hear (x := s.view) (by simp [view, h, HeaderTask.ear])
    · rw [label, if_neg he]
      exact .silent ⟨.inr (by simp [view, h, he, HeaderTask.ear]), id, rfl, id, rfl, rfl⟩
  | timeoutWritten h =>
    exact .silent ⟨.inl rfl, id, rfl, isWriting_mono (by simp) id id, rfl, rfl⟩
  | replyWritten h => exact .silent (quiet_reply (by simp [h, ReplyTask.work]) (by simp))
  | relayWritten h => exact .silent (quiet_outgoing _ (by simp [h, OutgoingTask.work]) (by simp))
  | @upstreamDone step ec h =>
    obtain ⟨hr, hw⟩ := hi.work_outgoing (by simp [h, OutgoingTask.work])
    by_cases he : ec = .success
    · rw [label, if_pos he]
      exact .silent (quiet_outgoing _ (by simp [h, he, OutgoingTask.work]) (by simp))
    · rw [label, if_neg he]
      exact drop_of (by simp [hw, h, OutgoingTask.work])
        (by simp [view, work, hr, h, he, isWriting, OutgoingTask.work, OutgoingTask.isWriting])
  | @upstreamRead ec data h hd =>
    obtain ⟨hr, hw⟩ := hi.work_outgoing (by simp [h, OutgoingTask.work])
    by_cases he : ec = .success ∨ ec = .eof
    · rw [label, if_pos he]
      exact .silent (quiet_outgoing _ (by simp [h, he, OutgoingTask.work]) (by simp))
    · rw [label, if_neg he]
      exact drop_of (by simp [hw, h, OutgoingTask.work])
        (by simp [view, work, hr, h, he, isWriting, OutgoingTask.work, OutgoingTask.isWriting])
  | startFailed h => exact .silent ⟨.inr (by simp [view, h, HeaderTask.ear]), id, rfl, id, rfl, rfl⟩
  | obtainHeader h =>
    refine .silent ⟨?_, id, rfl, id, rfl, rfl⟩
    cases s.isOpen <;> simp [view, h, HeaderTask.ear, Await.start, ErrorCode.badDescriptor]
  | headerFailed h he =>
    rw [label, if_neg (by simp [h, he, HeaderTask.ear])]
    exact .silent ⟨.inl (by simp [view, h, he, HeaderTask.ear]), id, rfl, id, rfl, rfl⟩
  | headerDropped h hs =>
    rw [label, if_neg (by simp [hs])]
    exact .silent ⟨.inr ⟨rfl, fun _ => hs⟩, id, rfl, id, rfl, rfl⟩
  | disallow h hs | health h hs ht | forward h hs ht =>
    -- the header task is not over yet, so nothing has been spawned before
    obtain ⟨hr, ho⟩ := hi.header.resolve_left (by simp [h])
    have he : s.header.ear = .heard := by simp [h, HeaderTask.ear]
    rw [label, if_pos ⟨he, hs⟩]
    refine dispatch_of he hs ?_
    rw [ReplyTask.work_eq_none] at hr
    rw [OutgoingTask.work_eq_none] at ho
    simp [view, work, isWriting, hr, ho, HeaderTask.ear, ReplyTask.work, OutgoingTask.work,
      ReplyTask.isWriting, OutgoingTask.isWriting]
  | timerFired h he =>
    exact .silent ⟨.inl rfl, id, rfl, isWriting_mono (by simp) id id, rfl, rfl⟩
  | timeoutCancelled h =>
    rw [label, if_neg (by simp [h])]
    exact .silent ⟨.inl rfl, id, rfl, isWriting_mono (by simp) id id, rfl, rfl⟩
  | timeoutFailed h he =>
    rw [label, if_neg (by simp [h, he])]
    exact .silent ((quiet_stopHandler s).calm (isWriting_mono (by simp) id id))
  | timeoutLate h hs =>
    rw [label, if_neg (by simp [hs])]
    exact .silent ⟨.inl rfl, fun _ => rfl, rfl, isWriting_mono (by simp) id id, rfl, rfl⟩
  | timeoutReply h hs =>
    rw [label, if_pos ⟨h, hs⟩]
    exact Exchange.Step.timeout (x := s.view) hs _ _
  | timeoutDone h =>
    rw [label, if_neg (by simp [h])]
    exact .silent ((quiet_shutdown s).calm (isWriting_mono (by simp) id id))
  | replyDisallow h | replyHealth h =>
    have hw : s.reply.work = .due := by simp [h, ReplyTask.work]
    rw [label, if_pos hw]
    exact Exchange.Step.answer (x := s.view) ((work_reply (by simp [hw])).trans hw) _ _
  | replyDone h =>
    rw [label, if_neg (by simp [h, ReplyTask.work])]
    exact .silent (quiet_reply (by simp [h, ReplyTask.work]) (by simp))
  | @runStop n => exact .silent (quiet_stopHandler { s with stops := n })
  | sslFailed h =>
    obtain ⟨hr, hw⟩ := hi.work_outgoing (by simp [h, OutgoingTask.work])
    exact drop_of (by simp [hw, h, OutgoingTask.work])
      (by simp [view, work, hr, h, isWriting, OutgoingTask.work, OutgoingTask.isWriting])
  | resolve h => exact .silent (quiet_outgoing _ (by simp [h, OutgoingTask.work]) (by simp))
  | connect h | onConnect h | sendRequest h | readResponse h | readChunk h =>
    simp only [label, h]
    exact .silent (quiet_outgoing _ (by simp [h, OutgoingTask.work]) (by simp))
  | upstreamFailed h he =>
    simp only [label, h]
    exact .silent (quiet_outgoing _ (by simp [h, he, OutgoingTask.work]) (by simp))
  | @readFailed ec n h he he' =>
    have hl : s.label .runOutgoing = .silent := by cases ec <;> simp_all [label]
    rw [hl]
    exact .silent (quiet_outgoing _ (by simp [h, he, he', OutgoingTask.work]) (by simp))
  | relay h =>
    obtain ⟨hr, hw⟩ := hi.work_outgoing (by simp [h, OutgoingTask.work])
    simp only [label, h]
    refine answer_of (r := (.relay, s.outgoingSession.response)) (by simp [hw, h, OutgoingTask.work]) ?_
    simp [view, work, hr, OutgoingTask.work, Exchange.hand, respond]
  | relayDone h =>
    simp only [label, h]
    have hw : HttpSession.work { s.shutdown with outgoing := .done } = s.work := by
      simp [work, h, OutgoingTask.work, HttpSession.shutdown]
    have hwr : HttpSession.isWriting { s.shutdown with outgoing := .done } = true →
        s.shutdown.isWriting = true := isWriting_mono id id (by simp)
    exact .silent ⟨(quiet_shutdown s).ear, id, hw, fun hn => (quiet_shutdown s).writing (hwr hn), rfl, rfl⟩

end HttpSession

end MarketBridge
