import MarketBridge.SessionSpec

/-!
# A stopped session takes no request

`Untouched`: no request has been passed on. A step of a stopped session keeps it, whatever is queued; so
does every step other than the one that handles the completed header read. `FirstStop`: the first caller of
`request_stop` obtained true and no other did; it started the shutdown or the 408 reply, once.
-/

namespace MarketBridge.HttpSession

open Lts (Run Det)

variable {s t : HttpSession} {e : Event} {as bs : List Event} {upstreamInfo : UpstreamInfo} {memory : Bytes}

/-! ### Nothing is passed on -/

structure Untouched (s : HttpSession) : Prop where
  allowCalls : s.allowCalls = 0
  outgoing : s.outgoing = .none
  reply : s.reply = .none
  handed : ∀ r ∈ s.handed, r.1 = .timeout

theorem Untouched.new : (new upstreamInfo memory).Untouched := ⟨rfl, rfl, rfl, List.forall_mem_nil _⟩

theorem Untouched.shutdown (hi : s.Untouched) : s.shutdown.Untouched where
  allowCalls := hi.allowCalls
  outgoing := by
    show s.outgoing.close = .none
    rw [hi.outgoing]; rfl
  reply := by
    show s.reply.close = .none
    rw [hi.reply]; rfl
  handed := hi.handed

theorem Untouched.stopHandler (hi : s.Untouched) : s.stopHandler.Untouched := by
  rcases stopHandler_cases s with ⟨-, h⟩ | ⟨-, h⟩ <;> rw [h]
  · exact ⟨hi.allowCalls, hi.outgoing, hi.reply, hi.handed⟩
  · exact Untouched.shutdown ⟨hi.allowCalls, hi.outgoing, hi.reply, hi.handed⟩

/-- Only the handling of a header by a session that is not stopped passes a request on. -/
theorem Untouched.step (hi : s.Untouched) (h : Step s e t)
    (hs : s.stopped = true ∨ ∀ allowed, e ≠ .runHeader allowed) : t.Untouched := by
  have hrun : ∀ allowed, s.stopped = false → ¬ e = .runHeader allowed := by
    intro allowed hf he
    rcases hs with hs | hs
    · rw [hf] at hs; cases hs
    · exact hs allowed he
  have hreply : ∀ {r}, s.reply = r → r = .none := fun hr => hr ▸ hi.reply
  have hout : ∀ {o}, s.outgoing = o → o = .none := fun ho => ho ▸ hi.outgoing
  cases h with
  | disallow _ hf => exact absurd rfl (hrun _ hf)
  | health _ hf => exact absurd rfl (hrun _ hf)
  | forward _ hf => exact absurd rfl (hrun _ hf)
  | timeoutFailed =>
    obtain ⟨ha, ho, hr, hh⟩ := hi.stopHandler
    exact ⟨ha, ho, hr, hh⟩
  | timeoutReply =>
    refine ⟨hi.allowCalls, hi.outgoing, hi.reply, fun r hr => ?_⟩
    rcases List.mem_append.1 hr with hr | hr
    · exact hi.handed r hr
    · rw [List.mem_singleton.1 hr]
  | timeoutDone =>
    obtain ⟨ha, ho, hr, hh⟩ := hi.shutdown
    exact ⟨ha, ho, hr, hh⟩
  | runStop => exact Untouched.stopHandler ⟨hi.allowCalls, hi.outgoing, hi.reply, hi.handed⟩
  -- there is no reply and no outgoing session
  | replyWritten h => cases hreply h
  | replyDisallow h => cases hreply h
  | replyHealth h => cases hreply h
  | replyDone h => cases hreply h
  | relayWritten h => cases hout h
  | upstreamDone h => cases hout h
  | upstreamRead h => cases hout h
  | sslFailed h => cases hout h
  | resolve h => cases hout h
  | upstreamFailed h => cases hout h
  | connect h => cases hout h
  | onConnect h => cases hout h
  | sendRequest h => cases hout h
  | readResponse h => cases hout h
  | readFailed h => cases hout h
  | readChunk h => cases hout h
  | relay h => cases hout h
  | relayDone h => cases hout h
  | _ => exact ⟨hi.allowCalls, hi.outgoing, hi.reply, hi.handed⟩

theorem stopHandler_stopped (s : HttpSession) : s.stopHandler.stopped = true := by
  rcases stopHandler_cases s with ⟨-, h⟩ | ⟨-, h⟩ <;> rw [h] <;> rfl

theorem Step.stopped (h : Step s e t) (hs : s.stopped = true) : t.stopped = true := by
  cases h with
  | timeoutFailed => exact stopHandler_stopped s
  | runStop => exact stopHandler_stopped _
  | timeoutLate => rfl
  | timeoutReply => rfl
  | _ => exact hs

theorem untouched_of_run (h : Run (Det step) (new upstreamInfo memory) as s)
    (ha : ∀ allowed, .runHeader allowed ∉ as) : s.Untouched := by
  have hI := h.trace_invariant (I := fun as s => (∀ allowed, .runHeader allowed ∉ as) → s.Untouched)
    (fun _ => .new) fun as s e t hi hst ha => by
      have hs : s.Untouched := hi fun allowed hm => ha allowed (List.mem_append_left _ hm)
      refine hs.step (step_cases hst) (.inr fun allowed he => ha allowed ?_)
      rw [he]
      exact List.mem_append_right _ List.mem_cons_self
  exact hI ha

theorem Untouched.run (hi : s.Untouched) (hs : s.stopped = true) (h : Run (Det HttpSession.step) s bs t) :
    t.Untouched :=
  (h.invariant (I := fun s => s.Untouched ∧ s.stopped = true)
    (fun _ _ _ hi hst => ⟨hi.1.step (step_cases hst) (.inl hi.2), (step_cases hst).stopped hi.2⟩) ⟨hi, hs⟩).1

/-! ### The first caller of `request_stop` -/

/-- The shutdowns that `stop` has started. -/
def stopShutdowns (s : HttpSession) : Nat := s.stopCalls.count (.stop, true)

/-- The 408 replies that the header timeout has started. -/
def timeoutReplies (s : HttpSession) : Nat := s.handed.countP fun r => r.1 = .timeout

def FirstStop (s : HttpSession) : Prop :=
  (s.stopped = false ∧ s.stopCalls = [] ∧ s.timeoutReplies = 0) ∨
    ∃ caller others, s.stopped = true ∧ s.stopCalls = (caller, true) :: others ∧
      (∀ call ∈ others, call.2 = false) ∧ s.timeoutReplies = if caller = .headerTimeout then 1 else 0

theorem FirstStop.new : (new upstreamInfo memory).FirstStop := .inl ⟨rfl, rfl, rfl⟩

theorem FirstStop.congr (hi : s.FirstStop) (hs : t.stopped = s.stopped) (hc : t.stopCalls = s.stopCalls)
    (hh : t.timeoutReplies = s.timeoutReplies) : t.FirstStop := by
  unfold FirstStop
  rw [hs, hc, hh]
  exact hi

/-- A further call obtains false. -/
theorem FirstStop.requestStop (hi : s.FirstStop) (hs : s.stopped = true) (caller : StopCaller) :
    (s.requestStop caller).FirstStop := by
  rcases hi with ⟨hf, -⟩ | ⟨first, others, -, hc, ho, hh⟩
  · rw [hs] at hf; cases hf
  · refine .inr ⟨first, others ++ [(caller, false)], rfl, ?_, ?_, hh⟩
    · show s.stopCalls ++ [(caller, !s.stopped)] = _
      rw [hs, hc]; rfl
    · intro call hm
      rcases List.mem_append.1 hm with hm | hm
      · exact ho call hm
      · rw [List.mem_singleton.1 hm]

theorem FirstStop.stopCalls_nil (hi : s.FirstStop) (hs : s.stopped = false) :
    s.stopCalls = [] ∧ s.timeoutReplies = 0 := by
  rcases hi with ⟨-, h⟩ | ⟨_, _, ht, -⟩
  · exact h
  · rw [hs] at ht; cases ht

theorem FirstStop.stopHandler (hi : s.FirstStop) : s.stopHandler.FirstStop := by
  rcases stopHandler_cases s with ⟨hs, h⟩ | ⟨hs, h⟩ <;> rw [h]
  · exact hi.requestStop hs .stop
  · obtain ⟨hc, hh⟩ := hi.stopCalls_nil hs
    refine .inr ⟨.stop, [], rfl, ?_, List.forall_mem_nil _, hh⟩
    show s.stopCalls ++ [(.stop, !s.stopped)] = _
    rw [hs, hc]; rfl

theorem timeoutReplies_respond (s : HttpSession) (kind : ResponseKind) (response : Bytes) :
    (s.respond kind response).timeoutReplies = s.timeoutReplies + if kind = .timeout then 1 else 0 := by
  show (s.handed ++ [(kind, response)]).countP _ = _
  rw [List.countP_append]
  cases kind <;> rfl

theorem FirstStop.step (hi : s.FirstStop) (h : Step s e t) : t.FirstStop := by
  cases h with
  | timeoutFailed => exact hi.stopHandler.congr rfl rfl rfl
  | timeoutLate _ hs => exact (hi.requestStop hs .headerTimeout).congr rfl rfl rfl
  | timeoutReply _ hs =>
    -- the call of `request_stop` that this reply waits for
    obtain ⟨hc, hh⟩ := hi.stopCalls_nil hs
    refine .inr ⟨.headerTimeout, [], rfl, ?_, List.forall_mem_nil _, ?_⟩
    · show s.stopCalls ++ [(.headerTimeout, !s.stopped)] = _
      rw [hs, hc]; rfl
    · have := timeoutReplies_respond (s.requestStop .headerTimeout) .timeout timeoutResponse
      rw [show (s.requestStop .headerTimeout).timeoutReplies = s.timeoutReplies from rfl, hh] at this
      exact this
  | runStop => exact FirstStop.stopHandler (hi.congr rfl rfl rfl)
  | replyDisallow => exact hi.congr rfl rfl (timeoutReplies_respond s .disallow _)
  | replyHealth => exact hi.congr rfl rfl (timeoutReplies_respond s .health _)
  | relay => exact hi.congr rfl rfl (timeoutReplies_respond s .relay _)
  | _ => exact hi.congr rfl rfl rfl

theorem firstStop_of_run (h : Run (Det step) (new upstreamInfo memory) as s) : s.FirstStop :=
  h.invariant (I := FirstStop) (fun _ _ _ hi hst => hi.step (step_cases hst)) .new

theorem FirstStop.first (hi : s.FirstStop) {i : Nat} {caller : StopCaller} {answer : Bool}
    (h : s.stopCalls[i]? = some (caller, answer)) : answer = true ↔ i = 0 := by
  rcases hi with ⟨-, hc, -⟩ | ⟨first, others, -, hc, ho, -⟩ <;> rw [hc] at h
  · rw [List.getElem?_nil] at h; cases h
  · cases i with
    | zero =>
      rw [List.getElem?_cons_zero] at h
      cases h
      exact ⟨fun _ => rfl, fun _ => rfl⟩
    | succ i =>
      rw [List.getElem?_cons_succ] at h
      have := ho _ (List.mem_of_getElem? h)
      rw [show answer = false from this]
      exact ⟨nofun, nofun⟩

theorem FirstStop.one (hi : s.FirstStop) : s.stopShutdowns + s.timeoutReplies ≤ 1 := by
  unfold stopShutdowns
  rcases hi with ⟨-, hc, hh⟩ | ⟨first, others, -, hc, ho, hh⟩ <;> rw [hc, hh]
  · exact Nat.zero_le 1
  · have hothers : others.count (.stop, true) = 0 := by
      refine List.count_eq_zero.2 fun hm => ?_
      have := ho _ hm
      cases this
    rw [List.count_cons, hothers]
    cases first <;> decide

/-- A session that is stopped before the completed header read is handled passes no request on, and answers
with the 408 at most. In every run the first caller of `request_stop` obtains true and no other does, and of
the shutdown by `stop` and the 408 reply at most one is started, at most once. -/
theorem stopped_takes_no_request (upstreamInfo : UpstreamInfo) (memory : Bytes) :
    (∀ as bs s t, Run (Det step) (new upstreamInfo memory) as s → (∀ allowed, .runHeader allowed ∉ as) →
      s.stopped = true → Run (Det step) s bs t →
      t.allowCalls = 0 ∧ t.outgoing = .none ∧ t.reply = .none ∧ ∀ r ∈ t.handed, r.1 = .timeout) ∧
    ∀ as s, Run (Det step) (new upstreamInfo memory) as s →
      (∀ i caller answer, s.stopCalls[i]? = some (caller, answer) → (answer = true ↔ i = 0)) ∧
      s.stopShutdowns + s.timeoutReplies ≤ 1 := by
  refine ⟨fun as bs s t h ha hs ht => ?_, fun as s h => ?_⟩
  · obtain ⟨hc, ho, hr, hh⟩ := (untouched_of_run h ha).run hs ht
    exact ⟨hc, ho, hr, hh⟩
  · have hi := firstStop_of_run h
    exact ⟨fun i caller answer hc => hi.first hc, hi.one⟩

/-- The read completes, then `stop` runs before the read is handled. -/
def stoppedRun : List Event := [.start, .runStart true, .headerRead .success healthRequest, .stop, .runStop]

theorem stopped_takes_no_request_health : ∃ s t, Run (Det step) (new exampleUpstream []) stoppedRun s ∧
    s.stopped = true ∧ Run (Det step) s [.runHeader true, .runTimer] t ∧
    t.allowCalls = 0 ∧ t.outgoing = .none ∧ t.reply = .none ∧ ∀ r ∈ t.handed, r.1 = .timeout := by
  have h : ((stoppedRun ++ [Event.runHeader true, .runTimer]).foldlM step (new exampleUpstream [])).isSome := by
    decide +kernel
  have h' : (stoppedRun.foldlM step (new exampleUpstream [])).map (·.stopped) = some true := by decide +kernel
  obtain ⟨t, ht⟩ := Option.isSome_iff_exists.1 h
  obtain ⟨s, hr, hr'⟩ := (Lts.run_det_iff.2 ht).append_inv
  rw [Lts.run_det_iff.1 hr] at h'
  have hs : s.stopped = true := by simpa using h'
  have hnot : ∀ allowed, .runHeader allowed ∉ stoppedRun := by decide
  exact ⟨s, t, hr, hs, hr', (stopped_takes_no_request exampleUpstream []).1 _ _ s t hr hnot hs hr'⟩

end MarketBridge.HttpSession
