import MarketBridge.SessionExchange

/-!
# How a session answers

The runs of a session are runs of the exchange (`exchange_of_run`). So a session hands at most one response
over as long as the header timeout does not answer a request that is already being answered, and it hands
something over for an admitted request exactly when no upstream step fails.
-/

namespace MarketBridge.HttpSession

open Lts (Run Det Guarded)

variable {s t : HttpSession} {e : Event} {as : List Event} {upstreamInfo : UpstreamInfo} {memory : Bytes}

/-- A complete header block has been read. -/
def Event.HeaderArrives : Event → Prop
  | .headerRead ec _ => ec = .success
  | _ => False

/-- An upstream step fails: `init_ssl`, `resolve`, `connect`, the handshake or the request write with any
error, a response read with an error other than plain EOF. -/
def Event.UpstreamFails : Event → Prop
  | .startOutgoing sslOk => sslOk = false
  | .upstreamDone _ ec => ec ≠ .success
  | .upstreamRead ec _ => ec ≠ .success ∧ ec ≠ .eof
  | _ => False

instance : DecidablePred Event.HeaderArrives := fun e => by
  cases e <;> unfold Event.HeaderArrives <;> infer_instance

instance : DecidablePred Event.UpstreamFails := fun e => by
  cases e <;> unfold Event.UpstreamFails <;> infer_instance

/-- `on_header_timeout` is about to answer a session that has not been stopped and whose request has been
passed to a reply, or to an outgoing session that has not failed. -/
def LateTimeout (s : HttpSession) (e : Event) : Prop :=
  e = .runTimeout ∧ s.timeout = .spawned .success ∧ s.stopped = false ∧ ¬ s.work.IsFree

instance (s : HttpSession) (e : Event) : Decidable (LateTimeout s e) :=
  inferInstanceAs (Decidable (_ ∧ _ ∧ _ ∧ _))

theorem label_eq_hear : s.label e = .hear ↔ e.HeaderArrives := by
  cases e <;> simp [label, Event.HeaderArrives]
  all_goals split <;> simp

theorem label_eq_drop : s.label e = .drop ↔ e.UpstreamFails := by
  cases e <;> simp [label, Event.UpstreamFails]
  all_goals split <;> simp

theorem label_eq_timeout :
    s.label e = .timeout ↔ e = .runTimeout ∧ s.timeout = .spawned .success ∧ s.stopped = false := by
  cases e <;> simp [label]
  all_goals split <;> simp

/-! ### Runs of the exchange -/

def Matches (e : Event) (l : Exchange.Label) : Prop :=
  (e.HeaderArrives ↔ l = .hear) ∧ (e.UpstreamFails ↔ l = .drop)

/-- A run of a session is a run of the exchange, with the labels of its events. -/
theorem exchange_of_run (h : Run (Det step) (new upstreamInfo memory) as s) :
    ∃ ls, List.Forall₂ Matches as ls ∧ Run Exchange.Step {} ls s.view := by
  have hS : ∀ s e t x, (s.Exclusive ∧ x = s.view) → Det step s e t →
      ∃ l y, Matches e l ∧ Exchange.Step x l y ∧ (t.Exclusive ∧ y = t.view) := by
    rintro s e t x ⟨hi, rfl⟩ hst
    have hst := step_cases hst
    exact ⟨s.label e, t.view, ⟨label_eq_hear.symm, label_eq_drop.symm⟩, hst.exchange hi, hi.step hst, rfl⟩
  obtain ⟨ls, x, hL, hr, -, rfl⟩ := h.simulate hS (x := {}) ⟨.new, rfl⟩
  exact ⟨ls, hL, hr⟩

/-- A run without late timeouts is a run of the exchange whose timeouts are punctual. -/
theorem punctual_of_run
    (h : Run (Guarded (fun s e => ¬ s.LateTimeout e) (Det step)) (new upstreamInfo memory) as s) :
    ∃ ls, Run (Guarded Exchange.Punctual Exchange.Step) {} ls s.view := by
  have hS : ∀ s e t x, (s.Exclusive ∧ x = s.view) → Guarded (fun s e => ¬ s.LateTimeout e) (Det step) s e t →
      ∃ l y, True ∧ Guarded Exchange.Punctual Exchange.Step x l y ∧ (t.Exclusive ∧ y = t.view) := by
    rintro s e t x ⟨hi, rfl⟩ ⟨hg, hst⟩
    have hst := step_cases hst
    refine ⟨s.label e, t.view, trivial, ⟨fun hl => ?_, hst.exchange hi⟩, hi.step hst, rfl⟩
    obtain ⟨he, ht, hs⟩ := label_eq_timeout.1 hl
    exact by_contra fun hw => hg ⟨he, ht, hs, hw⟩
  obtain ⟨ls, x, -, hr, -, rfl⟩ := h.simulate (L := fun _ _ => True) hS (x := {}) ⟨.new, rfl⟩
  exact ⟨ls, hr⟩

/-! ### At most one response -/

/-- In a run without late timeouts at most one response is handed to the client stream, and `response_` is
not assigned while a write of it is in flight. -/
theorem handed_once
    (h : Run (Guarded (fun s e => ¬ s.LateTimeout e) (Det step)) (new upstreamInfo memory) as s) :
    s.handed.length ≤ 1 ∧ s.clobbered = false := by
  obtain ⟨ls, hr⟩ := punctual_of_run h
  have hs := Exchange.single_of_run hr
  exact ⟨hs.one, hs.intact⟩

/-- After a late timeout two responses have been handed over, or one has and the answer is still due. -/
theorem lateTimeout_hands (h : Run (Det step) (new upstreamInfo memory) as s) (hl : s.LateTimeout e)
    (hst : step s e = some t) : 2 ≤ t.handed.length ∨ t.handed ≠ [] ∧ t.work = .due := by
  obtain ⟨rfl, ht, hs, hw⟩ := hl
  obtain ⟨ls, -, hrun⟩ := exchange_of_run h
  have hi := Exchange.settled_of_run hrun
  obtain rfl : s.onHeaderTimeout .success = t := by simpa [step, ht] using hst
  have hhanded : (s.onHeaderTimeout .success).handed = s.handed ++ [(.timeout, timeoutResponse)] := by
    simp [onHeaderTimeout, hs, respond, requestStop]
  have hwork : (s.onHeaderTimeout .success).work = s.work := by
    simp [onHeaderTimeout, hs, respond, requestStop, work]
  rw [hhanded, hwork]
  cases hsw : s.work with
  | none => exact absurd (.inl hsw) hw
  | dropped => exact absurd (.inr hsw) hw
  | due => exact .inr ⟨by simp, rfl⟩
  | answered =>
    have hne : s.handed ≠ [] := hi.answered hsw
    have hpos : 0 < s.handed.length := List.length_pos_iff.2 hne
    refine .inl ?_
    rw [List.length_append, List.length_singleton]
    omega

def exampleUpstream : UpstreamInfo := { host := lit "api.binance.com", port := 443 }

def healthRequest : Bytes := lit "GET /health HTTP/1.1\r\nHost: localhost\r\n\r\n"

def headerArrives (raw : Bytes) : List Event := [.start, .runStart true, .headerRead .success raw]

def healthRun : List Event :=
  headerArrives healthRequest ++ [.runHeader true, .runReply, .replyWritten .success, .runReply, .runTimer]

theorem handed_once_health : ∃ s,
    Run (Guarded (fun s e => ¬ s.LateTimeout e) (Det step)) (new exampleUpstream []) healthRun s ∧
    s.handed.length ≤ 1 ∧ s.clobbered = false := by
  have h : (healthRun.foldlM (fun s e => if ¬ s.LateTimeout e then step s e else none)
      (new exampleUpstream [])).isSome := by decide +kernel
  obtain ⟨s, hs⟩ := Option.isSome_iff_exists.1 h
  have hr : Run (Guarded (fun s e => ¬ s.LateTimeout e) (Det step)) (new exampleUpstream []) healthRun s := by
    rw [Lts.guarded_det]
    exact Lts.run_det_iff.2 hs
  exact ⟨s, hr, handed_once hr⟩

/-- The timer expires while the completed header read is still queued: the health response is handed over,
then the 408 response, which replaces it while it is being written. -/
def lateTimeoutRun : List Event :=
  headerArrives healthRequest ++ [.timerExpires, .runHeader true, .runReply, .runTimer, .runTimeout]

theorem lateTimeoutRun_answers_twice : ∃ s,
    Run (Det step) (new exampleUpstream []) lateTimeoutRun s ∧
    s.handed.map (·.1) = [.health, .timeout] ∧ s.clobbered = true := by
  have h : (lateTimeoutRun.foldlM step (new exampleUpstream [])).map
      (fun s => (s.handed.map (·.1), s.clobbered)) = some ([.health, .timeout], true) := by decide +kernel
  obtain ⟨s, hs, he⟩ := Option.map_eq_some_iff.1 h
  obtain ⟨h₁, h₂⟩ := Prod.mk.injEq .. ▸ he
  exact ⟨s, Lts.run_det_iff.2 hs, h₁, h₂⟩

/-! ### At least one response -/

theorem ear_of_not_ready (h : s.header.isReady = false) : s.header.ear ≠ .heard := by
  rcases hh : s.header with _ | _ | (_ | ⟨ec, raw⟩) | _ <;>
    simp_all [HeaderTask.isReady, HeaderTask.ear, Await.isPending]

theorem work_of_idle (hp : s.isPending = false) (hr : s.isReady = false) : s.work ≠ .due := by
  simp only [isPending, isReady, Bool.or_eq_false_iff] at hp hr
  obtain ⟨-, hpo⟩ := hp
  obtain ⟨⟨⟨-, hrr⟩, hro⟩, -⟩ := hr
  have hreply : s.reply.work ≠ .due := by
    cases h : s.reply <;> simp_all [ReplyTask.isReady, ReplyTask.work]
  have hout : s.outgoing.work ≠ .due := by
    rcases h : s.outgoing with _ | _ | ⟨_, _ | _⟩ | (_ | _) | _ | _ | _ <;>
      simp_all [OutgoingTask.isReady, OutgoingTask.isPending, OutgoingTask.work, Await.isPending]
  unfold work
  split
  · exact hout
  · exact hreply

/-- Once nothing is pending or ready any more, a session that read a header block and was not stopped has
called `async_write` for its client iff no upstream step has failed. -/
theorem handed_ne_nil_iff (h : Run (Det step) (new upstreamInfo memory) as s) (hh : ∃ e ∈ as, e.HeaderArrives)
    (hs : s.stopped = false) (hp : s.isPending = false) (hr : s.isReady = false) :
    s.handed ≠ [] ↔ ∀ e ∈ as, ¬ e.UpstreamFails := by
  obtain ⟨ls, hL, hrun⟩ := exchange_of_run h
  have hear := (Lts.forall₂_exists_iff (fun _ _ hm => hm.1) hL).1 hh
  have hdrop := Lts.forall₂_exists_iff (fun _ _ hm => hm.2) hL
  have hready : s.header.isReady = false := by
    simp only [isReady, Bool.or_eq_false_iff] at hr
    exact hr.1.1.1.1.1
  have := (Exchange.settled_of_run hrun).answered_iff (by simpa using hear) hs (ear_of_not_ready hready)
    (work_of_idle hp hr)
  rw [show s.handed = s.view.handed from rfl, this]
  have hd : (∃ e ∈ as, e.UpstreamFails) ↔ .drop ∈ ls := by simpa using hdrop
  simp [← hd]

end MarketBridge.HttpSession
