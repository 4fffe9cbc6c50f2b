import MarketBridge.BucketRuns
import MarketBridge.SystemSpec

/-!
# What the shared rate limiter admits

The limiter is asked once for a connection at most, by `on_request`. Its answers over a run of the whole are
those of one token bucket to one list of calls, whatever the sessions do in between; and a session goes to
its upstream server, or answers `/health`, only after a call that was admitted. The bounds are those of exact
rational arithmetic, as the bucket of the model computes; the `double`s of the code may round past them.
-/

namespace MarketBridge

open Lts (Run Det)

namespace HttpSession

variable {s t : HttpSession} {e : Event}

/-- The request of the session has been let through. -/
def Admitted (s : HttpSession) : Prop :=
  s.outgoing ≠ .none ∨ (∃ request, s.reply = .health request) ∨ ∃ response, (.health, response) ∈ s.handed

/-- The request of the session is answered with 429. -/
def Refused (s : HttpSession) : Prop := s.reply = .disallow ∨ ∃ response, (.disallow, response) ∈ s.handed

theorem asksLimiter_iff : s.asksLimiter = true ↔
    s.stopped = false ∧ ∃ raw, s.header = .reading (.ready (.success, raw)) := by
  unfold asksLimiter
  split
  · rename_i ec raw h
    rw [h]
    constructor
    · intro h
      obtain ⟨rfl, hs⟩ : ec = .success ∧ s.stopped = false := by simpa using h
      exact ⟨hs, raw, rfl⟩
    · rintro ⟨hs, raw', hr⟩
      obtain ⟨rfl, -⟩ : ec = .success ∧ raw = raw' := by simpa using hr
      simp [hs]
  · rename_i hn
    simp only [Bool.false_eq_true, false_iff, not_and, not_exists]
    exact fun _ raw h => hn _ _ h

theorem close_ne_none {o : OutgoingTask} (h : o.close ≠ .none) : o ≠ .none := by
  rintro rfl
  exact h rfl

theorem close_eq_health {r : ReplyTask} {request : HttpRequest} (h : r.close = .health request) :
    r = .health request := by
  cases r <;> simp_all [ReplyTask.close]

theorem close_eq_disallow {r : ReplyTask} (h : r.close = .disallow) : r = .disallow := by
  cases r <;> simp_all [ReplyTask.close]

theorem Admitted.of_shutdown (h : s.shutdown.Admitted) : s.Admitted := by
  rcases h with h | ⟨request, h⟩ | h
  · exact .inl (close_ne_none h)
  · exact .inr (.inl ⟨request, close_eq_health h⟩)
  · exact .inr (.inr h)

theorem Refused.of_shutdown (h : s.shutdown.Refused) : s.Refused := h.imp_left close_eq_disallow

theorem Admitted.of_stopHandler (h : s.stopHandler.Admitted) : s.Admitted := by
  rcases stopHandler_cases s with ⟨-, he⟩ | ⟨-, he⟩ <;> rw [he] at h
  · exact h
  · exact h.of_shutdown

theorem Refused.of_stopHandler (h : s.stopHandler.Refused) : s.Refused := by
  rcases stopHandler_cases s with ⟨-, he⟩ | ⟨-, he⟩ <;> rw [he] at h
  · exact h
  · exact h.of_shutdown

theorem mem_handed_of_ne {kind kind' : ResponseKind} {response response' : Bytes} {l : List (ResponseKind × Bytes)}
    (hne : kind ≠ kind') (h : (kind, response) ∈ l ++ [(kind', response')]) : (kind, response) ∈ l := by
  rcases List.mem_append.1 h with h | h
  · exact h
  · exact absurd (Prod.mk.inj (List.mem_singleton.1 h)).1 hne

theorem Step.admitted (h : Step s e t) (ht : t.Admitted) :
    s.Admitted ∨ e = .runHeader true ∧ s.asksLimiter = true := by
  cases h with
  | health h hs | forward h hs => exact .inr ⟨rfl, asksLimiter_iff.2 ⟨hs, _, h⟩⟩
  | disallow =>
    refine .inl (ht.imp_right (Or.imp_left ?_))
    rintro ⟨request, h⟩
    cases h
  | timeoutFailed => exact .inl (Admitted.of_stopHandler ht)
  | @runStop n => exact .inl (Admitted.of_stopHandler (s := { s with stops := n }) ht)
  | timeoutDone => exact .inl (Admitted.of_shutdown ht)
  | timeoutReply =>
    refine .inl (ht.imp_right (Or.imp_right ?_))
    rintro ⟨response, h⟩
    exact ⟨response, mem_handed_of_ne (by simp) h⟩
  | replyWritten | replyDone =>
    refine .inl (ht.imp_right (Or.imp_left ?_))
    rintro ⟨request, h⟩
    cases h
  | replyDisallow =>
    rcases ht with h | ⟨request, h⟩ | ⟨response, h⟩
    · exact .inl (.inl h)
    · cases h
    · exact .inl (.inr (.inr ⟨response, mem_handed_of_ne (by simp) h⟩))
  | replyHealth h => exact .inl (.inr (.inl ⟨_, h⟩))
  | relayWritten h | upstreamDone h | upstreamRead h | sslFailed h | resolve h | upstreamFailed h | connect h
  | onConnect h | sendRequest h | readResponse h | readFailed h | readChunk h | relay h | relayDone h =>
    exact .inl (.inl (by simp [h]))
  | _ => exact .inl ht

theorem Step.refused (h : Step s e t) (ht : t.Refused) :
    s.Refused ∨ e = .runHeader false ∧ s.asksLimiter = true := by
  cases h with
  | disallow h hs => exact .inr ⟨rfl, asksLimiter_iff.2 ⟨hs, _, h⟩⟩
  | health =>
    refine .inl (ht.imp_left fun h => ?_)
    cases h
  | timeoutFailed => exact .inl (Refused.of_stopHandler ht)
  | @runStop n => exact .inl (Refused.of_stopHandler (s := { s with stops := n }) ht)
  | timeoutDone | relayDone => exact .inl (Refused.of_shutdown ht)
  | timeoutReply | relay =>
    refine .inl (ht.imp_right ?_)
    rintro ⟨response, h⟩
    exact ⟨response, mem_handed_of_ne (by simp) h⟩
  | replyWritten | replyDone =>
    refine .inl (ht.imp_left fun h => ?_)
    cases h
  | replyDisallow h => exact .inl (.inl h)
  | replyHealth =>
    rcases ht with h | ⟨response, h⟩
    · cases h
    · exact .inl (.inr ⟨response, mem_handed_of_ne (by simp) h⟩)
  | _ => exact .inl ht

/-- `runHeader` is the end of the coroutine that reads the header. -/
theorem Step.runHeader_done {allowed : Bool} (h : Step s (.runHeader allowed) t) : t.header = .done := by
  cases h <;> rfl

/-- The limiter's answer that the session has acted on. -/
def Verdict (s : HttpSession) (allowed : Bool) : Prop := if allowed then s.Admitted else s.Refused

theorem new_no_verdict (upstreamInfo : UpstreamInfo) (memory : Bytes) (allowed : Bool) :
    ¬ (new upstreamInfo memory).Verdict allowed := by
  cases allowed <;> simp [Verdict, Admitted, Refused, HttpSession.new]

theorem Step.verdict {allowed : Bool} (h : Step s e t) (ht : t.Verdict allowed) :
    s.Verdict allowed ∨ e = .runHeader allowed ∧ s.asksLimiter = true := by
  cases allowed with
  | true => exact h.admitted ht
  | false => exact h.refused ht

/-- A header that has been handled stays so. -/
theorem Step.header_done (h : Step s e t) (hd : s.header = .done) : t.header = .done := by
  have hst : ∀ s : HttpSession, s.header = .done → s.stopHandler.header = .done := by
    intro s hs
    rcases stopHandler_cases s with ⟨-, he⟩ | ⟨-, he⟩ <;> rw [he]
    · exact hs
    · simp [shutdown, requestStop, hs, HeaderTask.close]
  cases h with
  | start h | headerRead h | obtainHeader h => simp [hd] at h
  | timeoutFailed => exact hst s hd
  | @runStop n => exact hst { s with stops := n } hd
  | timeoutDone | relayDone => simp [shutdown, hd, HeaderTask.close]
  | _ => first | exact hd | rfl

end HttpSession

namespace System

variable {s t u : System} {e : Event} {as : List Event} {cfg : Config} {memory : ConnId → Bytes} {now : ℚ}
  {c : ConnId}

/-! ### The calls of the limiter -/

/-- The limiter, its decisions and the clock are as before. -/
def Idle (s t : System) : Prop := t.limiter = s.limiter ∧ t.decisions = s.decisions ∧ t.now = s.now

theorem idle_serverStep {e : Server.Event} (h : s.serverStep e = some t) : s.Idle t := by
  rw [(of_serverStep h).2]
  exact ⟨rfl, rfl, rfl⟩

theorem idle_sslHandshake {files : TlsFiles} {e : Bool → Server.Event} (h : s.sslHandshake files e = some t) :
    s.Idle t := by
  have hi := idle_serverStep (of_sslHandshake h)
  exact hi

theorem idle_completionHandler {p : Port} {files : TlsFiles} (h : s.completionHandler p c files = some t) :
    s.Idle t := by
  cases p with
  | http => exact idle_serverStep h
  | https => exact idle_sslHandshake h

/-- A step leaves the limiter alone, or it is the one call for the request of a connection. -/
inductive LimiterStep (s : System) (e : Event) (t : System) : Prop
  | idle (hl : t.limiter = s.limiter) (hd : t.decisions = s.decisions) (hn : s.now ≤ t.now)
      (hr : ∀ c session, e = .runHeader c → s.conns c = .http session → session.asksLimiter = false)
  | asked {c : ConnId} {session : HttpSession} (he : e = .runHeader c) (hc : s.conns c = .http session)
      (ha : session.asksLimiter = true) (hn : t.now = s.now) (hl : t.limiter = (s.limiter.allow s.now).2)
      (hd : t.decisions = s.decisions ++ [⟨c, s.now, (s.limiter.allow s.now).1⟩])
      (hs : s.server.step (.session c (.runHeader (s.limiter.allow s.now).1)) = some t.server)

theorem Idle.limiterStep (hi : s.Idle t) (he : ∀ c, e ≠ .runHeader c) : s.LimiterStep e t :=
  .idle hi.1 hi.2.1 hi.2.2.ge fun c _ hc => absurd hc (he c)

theorem Step.limiterStep (h : Step s e t) : s.LimiterStep e t := by
  cases h with
  | tick hn => exact .idle rfl rfl hn (by simp)
  | runSniff _ ht | timerExpires _ _ ht | server _ ht => exact (idle_serverStep ht).limiterStep (by simp)
  | runSniffTls _ ht => exact (idle_sslHandshake ht).limiterStep (by simp)
  | accepted _ ht =>
    have hi := idle_serverStep ht
    exact Idle.limiterStep hi (by simp)
  | runStart ht =>
    have hi := idle_serverStep ht
    exact Idle.limiterStep hi (by simp)
  | dispatch _ _ ht =>
    have hi := idle_completionHandler ht
    exact Idle.limiterStep hi (by simp)
  | @decide c session t hc ha ht =>
    obtain ⟨hl, hd, hn⟩ := idle_serverStep ht
    exact .asked rfl hc ha hn hl hd (of_serverStep ht).1
  | @runHeader c session t hc ha ht =>
    obtain ⟨hl, hd, hn⟩ := idle_serverStep ht
    refine .idle hl hd hn.ge fun c' session' he hc' => ?_
    obtain rfl := Event.runHeader.inj he
    rw [hc] at hc'
    rwa [← Conn.http.inj hc']
  | closeAcceptors ht | listener _ ht =>
    rw [(of_listenerStep ht).2]
    exact .idle rfl rfl le_rfl (by simp)

/-! ### The decisions are those of one bucket -/

/-- The calls of `allow` on the bucket. -/
def calls (ds : List Decision) : List TokenBucket.Call := ds.map fun d => .allow d.time

/-- The answers over time, the latest first. -/
def answers (ds : List Decision) : List (ℚ × Bool) := (ds.map fun d => (d.time, d.allowed)).reverse

structure Throttled (b : TokenBucket) (s : System) : Prop where
  limiter : s.limiter = .tokenBucket (b.after (calls s.decisions))
  ordered : b.Ordered (calls s.decisions ++ [.allow s.now])
  results : b.results (calls s.decisions) = s.decisions.map fun d => some d.allowed
  history : b.history [] (calls s.decisions) = answers s.decisions

theorem calls_snoc (ds : List Decision) (d : Decision) : calls (ds ++ [d]) = calls ds ++ [.allow d.time] :=
  List.map_append

theorem ordered_later {b : TokenBucket} {cs : List TokenBucket.Call} {t u : ℚ} (ho : b.Ordered (cs ++ [.allow t]))
    (htu : t ≤ u) : b.Ordered (cs ++ [.allow u]) := by
  unfold TokenBucket.Ordered at ho ⊢
  rw [List.map_append, ← List.cons_append] at ho ⊢
  obtain ⟨h₁, -, h₂⟩ := List.pairwise_append.1 ho
  refine List.pairwise_append.2 ⟨h₁, List.pairwise_singleton .., fun x hx y hy => ?_⟩
  obtain rfl := List.mem_singleton.1 hy
  exact (h₂ x hx t (List.mem_singleton.2 rfl)).trans htu

theorem ordered_again {b : TokenBucket} {cs : List TokenBucket.Call} {t : ℚ} (ho : b.Ordered (cs ++ [.allow t])) :
    b.Ordered (cs ++ [.allow t] ++ [.allow t]) := by
  unfold TokenBucket.Ordered at ho ⊢
  rw [List.map_append, ← List.cons_append]
  refine List.pairwise_append.2 ⟨ho, List.pairwise_singleton .., fun x hx y hy => ?_⟩
  obtain rfl := List.mem_singleton.1 hy
  rw [List.map_append, ← List.cons_append] at hx ho
  rcases List.mem_append.1 hx with hx | hx
  · exact (List.pairwise_append.1 ho).2.2 x hx _ (List.mem_singleton.2 rfl)
  · exact (List.mem_singleton.1 hx).le

theorem Throttled.step {b : TokenBucket} (hi : Throttled b s) (h : Step s e t) : Throttled b t := by
  cases h.limiterStep with
  | idle hl hd hn =>
    obtain ⟨h₁, h₂, h₃, h₄⟩ := hi
    refine ⟨?_, ?_, ?_, ?_⟩ <;> rw [hd]
    · rw [hl, h₁]
    · exact ordered_later h₂ hn
    · exact h₃
    · exact h₄
  | @asked c session he hc ha hn hl hd hs =>
    obtain ⟨h₁, h₂, h₃, h₄⟩ := hi
    have hcall : (s.limiter.allow s.now).1 = ((b.after (calls s.decisions)).allow s.now).1 := by rw [h₁]; rfl
    have hafter : b.after (calls s.decisions ++ [.allow s.now]) =
        ((b.after (calls s.decisions)).allow s.now).2 := by
      rw [TokenBucket.after, List.foldl_append]
      rfl
    refine ⟨?_, ?_, ?_, ?_⟩ <;> rw [hd, calls_snoc]
    · rw [hl, h₁, hafter]
      rfl
    · rw [hn]
      exact ordered_again h₂
    · rw [TokenBucket.results_append, h₃, List.map_append, hcall]
      rfl
    · rw [TokenBucket.history_snoc, h₄, hcall, answers, answers, List.map_append, List.reverse_append]
      rfl

theorem throttled_of_run (h : Run (Det step) (new cfg memory now) as s) (henabled : cfg.throttling.enabled = true) :
    Throttled (.new cfg.throttling.requestsPerSecond.toNat cfg.throttling.burstSize.toNat now) s := by
  refine h.invariant (fun _ _ _ hi h => hi.step (step_cases h)) ⟨?_, ?_, rfl, rfl⟩
  · show initRateLimiter cfg.throttling now = _
    rw [initRateLimiter, if_pos henabled]
    rfl
  · simp [TokenBucket.Ordered, calls, System.new, TokenBucket.new, TokenBucket.Call.time]

/-! ### Who has been decided about -/

/-- The connection has no request to decide about any more. -/
def Concluded (conn : Conn) : Prop := conn = .closed ∨ ∃ session, conn = .http session ∧ session.header = .done

theorem Concluded.moves {conn conn' : Conn} {upstreamInfo : UpstreamInfo} {bytes : Bytes}
    {event : Option HttpSession.Event} (hc : Concluded conn) (h : conn.Moves upstreamInfo bytes event conn') :
    Concluded conn' := by
  cases h with
  | stays => exact hc
  | early hn hs _ =>
    rcases hc with hc | ⟨session, hc, -⟩
    · exact absurd hc hn
    · exact absurd hc (hs session)
  | session hs _ =>
    rcases hc with hc | ⟨session, hc, hd⟩
    · cases hc
    · obtain rfl := Conn.http.inj hc
      exact .inr ⟨_, rfl, hs.header_done hd⟩
  | ends => exact .inl rfl

structure Decided (s : System) : Prop where
  nodup : (s.decisions.map (·.conn)).Nodup
  concluded : ∀ d ∈ s.decisions, Concluded (s.conns d.conn)
  verdict : ∀ c session allowed, s.conns c = .http session → session.Verdict allowed →
    ∃ d ∈ s.decisions, d.conn = c ∧ d.allowed = allowed

theorem Decided.new : (System.new cfg memory now).Decided where
  nodup := List.nodup_nil
  concluded := by simp [System.new]
  verdict c session allowed h := by simp [System.new] at h

theorem Decided.idle (hi : s.Decided) (h : Step s e t) (hd : t.decisions = s.decisions)
    (hr : ∀ c session, e = .runHeader c → s.conns c = .http session → session.asksLimiter = false) : t.Decided := by
  refine ⟨hd ▸ hi.nodup, fun d hm => ?_, fun c session' allowed hc hv => ?_⟩
  · obtain ⟨event, hmoves, -⟩ := h.moves d.conn
    exact (hi.concluded d (hd ▸ hm)).moves hmoves
  · rw [hd]
    obtain ⟨event, hmoves, hevent⟩ := h.moves c
    rw [hc] at hmoves
    generalize hs : s.conns c = conn at hmoves
    cases hmoves with
    | stays => exact hi.verdict c session' allowed hs hv
    | early _ _ hn =>
      rw [hn _ rfl] at hv
      exact absurd hv (HttpSession.new_no_verdict _ _ allowed)
    | session hst he =>
      rcases hst.verdict hv with hv | ⟨rfl, ha⟩
      · exact hi.verdict c _ allowed hs hv
      · have hh := hr c _ (hevent _ (by simpa using he)).runHeader_inv hs
        simp [ha] at hh

/-- The connection whose request has been decided about has not been decided about before. -/
theorem Decided.asked {session : HttpSession} {allowed : Bool} (hi : s.Decided) (hc : s.conns c = .http session)
    (ha : session.asksLimiter = true) (hd : t.decisions = s.decisions ++ [⟨c, s.now, allowed⟩])
    (hs : s.server.step (.session c (.runHeader allowed)) = some t.server) : t.Decided := by
  obtain ⟨session₀, session', h₀, hst, ht⟩ := Server.session_inv hs
  obtain rfl := Conn.http.inj (hc.symm.trans h₀)
  have hst := HttpSession.step_cases hst
  have hconns : ∀ c', t.conns c' = if c' = c then .http session' else s.conns c' := fun c' =>
    (congrArg (fun u : Server => u.conns c') ht).trans (Server.setConn_conns s.server c c' _)
  have hnew : ∀ d ∈ s.decisions, d.conn ≠ c := by
    rintro d hm rfl
    rcases hi.concluded d hm with hd | ⟨session₁, h₁, hd⟩
    · rw [hc] at hd
      cases hd
    · obtain rfl := Conn.http.inj (hc.symm.trans h₁)
      obtain ⟨-, raw, hr⟩ := HttpSession.asksLimiter_iff.1 ha
      rw [hd] at hr
      cases hr
  refine ⟨?_, fun d hm => ?_, fun c' session₁ allowed' hc' hv => ?_⟩
  · rw [hd, List.map_append]
    refine List.nodup_append.2 ⟨hi.nodup, List.nodup_singleton _, fun x hx y hy => ?_⟩
    obtain ⟨d, hm, rfl⟩ := List.mem_map.1 hx
    obtain rfl := List.mem_singleton.1 hy
    exact hnew d hm
  · rw [hd] at hm
    rw [hconns]
    rcases List.mem_append.1 hm with hm | hm
    · rw [if_neg (hnew d hm)]
      exact hi.concluded d hm
    · obtain rfl := List.mem_singleton.1 hm
      rw [if_pos rfl]
      exact .inr ⟨session', rfl, hst.runHeader_done⟩
  · have hold : ∀ session₂, s.conns c' = .http session₂ → session₂.Verdict allowed' →
        ∃ d ∈ t.decisions, d.conn = c' ∧ d.allowed = allowed' := by
      intro session₂ h hv
      obtain ⟨d, hm, h⟩ := hi.verdict c' session₂ allowed' h hv
      exact ⟨d, hd ▸ List.mem_append_left _ hm, h⟩
    rw [hconns] at hc'
    split at hc'
    · rename_i hcc
      subst hcc
      obtain rfl := Conn.http.inj hc'
      rcases hst.verdict hv with hv | ⟨he, -⟩
      · exact hold _ hc hv
      · refine ⟨⟨c', s.now, allowed⟩, ?_, rfl, HttpSession.Event.runHeader.inj he⟩
        rw [hd]
        exact List.mem_append_right _ (List.mem_singleton.2 rfl)
    · exact hold _ hc' hv

theorem Decided.step (hi : s.Decided) (h : Step s e t) : t.Decided := by
  cases h.limiterStep with
  | idle _ hd _ hr => exact hi.idle h hd hr
  | asked _ hc ha _ _ hd hs => exact hi.asked hc ha hd hs

theorem decided_of_run (h : Run (Det step) (System.new cfg memory now) as s) : s.Decided :=
  h.invariant (fun _ _ _ hi h => hi.step (step_cases h)) .new

/-! ### What is admitted in a window -/

theorem calls_eq (ds : List Decision) : calls ds = (ds.map (·.time)).map .allow := by
  rw [calls, List.map_map]
  rfl

/-- The decisions that let a request through between two times. -/
def admittedBetween (s : System) (t t' : ℚ) : List Decision :=
  s.decisions.filter fun d => d.allowed ∧ t ≤ d.time ∧ d.time ≤ t'

theorem admitted_answers (ds : List Decision) (t t' : ℚ) :
    Envelope.admitted ((answers ds).filter fun p => t ≤ p.1 ∧ p.1 ≤ t') =
      (ds.filter fun d => d.allowed ∧ t ≤ d.time ∧ d.time ≤ t').length := by
  rw [Envelope.admitted, answers, List.filter_reverse, List.countP_reverse, List.filter_map, List.countP_map,
    List.countP_filter, List.countP_eq_length_filter]
  refine congrArg List.length (List.filter_congr fun d _ => ?_)
  simp

theorem Throttled.window {rate burst t t' : ℚ} (hi : Throttled (.new rate burst now) s) (hr : 0 ≤ rate)
    (hb : 0 ≤ burst) (ht : t ≤ t') : ((s.admittedBetween t t').length : ℚ) ≤ burst + rate * (t' - t) := by
  have ho : (TokenBucket.new rate burst now).Ordered ((s.decisions.map (·.time)).map .allow) := by
    rw [← calls_eq]
    exact hi.ordered.append_left
  have hg := TokenBucket.greedy_history hr ho
  rw [← calls_eq, hi.history] at hg
  have hs : ((answers s.decisions).map Prod.fst).Pairwise (· ≥ ·) := by
    have htimes := (List.pairwise_cons.1 hi.ordered.append_left).2
    rw [calls, List.map_map] at htimes
    rw [answers, List.map_reverse, List.map_map, List.pairwise_reverse]
    exact htimes
  have hw := hg.conforms.window hb hr ht hs
  rw [admitted_answers] at hw
  exact hw

/-- Over the whole server, whatever the order of its steps, in exact arithmetic no window of length `w` lets more
than `burst_size + requests_per_second * w` requests through to the upstream server or `/health`. -/
theorem throttled_window (h : Run (Det step) (System.new cfg memory now) as s)
    (henabled : cfg.throttling.enabled = true) :
    (∀ c session, s.conns c = .http session → session.Admitted →
      ∃ d ∈ s.decisions, d.conn = c ∧ d.allowed = true) ∧
    (s.decisions.map (·.conn)).Nodup ∧
    ∀ t t', t ≤ t' → ((s.admittedBetween t t').length : ℚ) ≤
      cfg.throttling.burstSize.toNat + cfg.throttling.requestsPerSecond.toNat * (t' - t) := by
  have hd := decided_of_run h
  exact ⟨fun c session hc ha => hd.verdict c session true hc ha, hd.nodup,
    fun t t' ht => (throttled_of_run h henabled).window (Nat.cast_nonneg _) (Nat.cast_nonneg _) ht⟩

def oneASecond : Config :=
  { throttling := { enabled := true, requestsPerSecond := 1, burstSize := 1 } }

/-- Two clients ask at once, a third one a second later. -/
def threeClients : List Event :=
  connects 0 ++ connects 1 ++ connects 2 ++ asks 0 HttpSession.healthRequest ++
    asks 1 HttpSession.healthRequest ++ [.tick 1] ++ asks 2 HttpSession.healthRequest

theorem throttled_window_three : ∃ s, Run (Det step) (System.new oneASecond (fun _ => []) 0) threeClients s ∧
    (∀ c session, s.conns c = .http session → session.Admitted →
      ∃ d ∈ s.decisions, d.conn = c ∧ d.allowed = true) ∧
    (s.decisions.map (·.conn)).Nodup ∧
    ∀ t t', t ≤ t' → ((s.admittedBetween t t').length : ℚ) ≤
      oneASecond.throttling.burstSize.toNat + oneASecond.throttling.requestsPerSecond.toNat * (t' - t) := by
  obtain ⟨s, h, -⟩ := Lts.exists_run (p := fun s : System => s.decisions.map (·.allowed) = [true, false, true])
    (show ((threeClients.foldlM step (System.new oneASecond (fun _ => []) 0)).any _) = true by decide +kernel)
  exact ⟨s, h, throttled_window h rfl⟩

/-! ### Who is refused -/

theorem admittedBetween_results (ds : List Decision) (j i : ℕ) :
    TokenBucket.admittedBetween (ds.map fun d => some d.allowed) j i = ((ds.take i).drop j).countP (·.allowed) := by
  rw [TokenBucket.admittedBetween, ← List.map_take, ← List.map_drop, List.count, List.countP_map]
  refine List.countP_congr fun d _ => ?_
  simp

theorem getElem?_calls {ds : List Decision} {j : ℕ} {t : ℚ} :
    (calls ds)[j]? = some (.allow t) ↔ ∃ d, ds[j]? = some d ∧ d.time = t := by
  simp [calls]

/-- The decision on a request in terms of the ones before it. -/
theorem Throttled.decision_iff {rate burst : ℚ} {i : ℕ} {d : Decision} (hi : Throttled (.new rate burst now) s)
    (hr : 0 ≤ rate) (hd : s.decisions[i]? = some d) :
    d.allowed = true ↔ ∀ j d', j ≤ i → s.decisions[j]? = some d' →
      (((s.decisions.take i).drop j).countP (·.allowed) : ℚ) + 1 ≤ burst + rate * (d.time - d'.time) := by
  have hcall : (calls s.decisions)[i]? = some (.allow d.time) := getElem?_calls.2 ⟨d, hd, rfl⟩
  have hiff := TokenBucket.admitted_iff burst now hr hi.ordered.append_left hcall
  rw [hi.results] at hiff
  have hres : (s.decisions.map fun d => some d.allowed)[i]? = some (some true) ↔ d.allowed = true := by
    rw [List.getElem?_map, hd]
    simp
  rw [hres] at hiff
  refine hiff.trans ⟨fun H j d' hj hd' => ?_, fun H j u hj hu _ => ?_⟩
  · have := H j d'.time hj (getElem?_calls.2 ⟨d', hd', rfl⟩) fun k now _ _ => by simp [calls]
    rwa [admittedBetween_results] at this
  · obtain ⟨d', hd', rfl⟩ := getElem?_calls.1 hu
    rw [admittedBetween_results]
    exact H j d' hj hd'

/-- Without throttling the limiter never says no. -/
def Unlimited (s : System) : Prop := s.limiter = .unlimited ∧ ∀ d ∈ s.decisions, d.allowed = true

theorem Unlimited.step (hi : s.Unlimited) (h : Step s e t) : t.Unlimited := by
  cases h.limiterStep with
  | idle hl hd =>
    rw [Unlimited, hl, hd]
    exact hi
  | asked _ _ _ _ hl hd =>
    rw [hi.1] at hl hd
    refine ⟨hl, fun d hm => ?_⟩
    rw [hd] at hm
    rcases List.mem_append.1 hm with hm | hm
    · exact hi.2 d hm
    · rw [List.mem_singleton.1 hm]
      rfl

theorem unlimited_of_run (h : Run (Det step) (System.new cfg memory now) as s)
    (henabled : cfg.throttling.enabled = false) : s.Unlimited := by
  refine h.invariant (fun _ _ _ hi h => hi.step (step_cases h)) ⟨?_, by simp [System.new]⟩
  show initRateLimiter cfg.throttling now = _
  rw [initRateLimiter, henabled]
  rfl

/-- A client is answered with 429 only for a decision of its own, and with throttling on, in exact arithmetic, that
decision falls exactly when some stretch of decisions up to it would break the envelope; with throttling off,
never. -/
theorem refused_exactly (h : Run (Det step) (System.new cfg memory now) as s) :
    (∀ c session, s.conns c = .http session → session.Refused →
      ∃ d ∈ s.decisions, d.conn = c ∧ d.allowed = false) ∧
    (cfg.throttling.enabled = true → ∀ i d, s.decisions[i]? = some d →
      (d.allowed = false ↔ ∃ j d', j ≤ i ∧ s.decisions[j]? = some d' ∧
        (cfg.throttling.burstSize.toNat + cfg.throttling.requestsPerSecond.toNat * (d.time - d'.time) : ℚ) <
          ((s.decisions.take i).drop j).countP (·.allowed) + 1)) ∧
    (cfg.throttling.enabled = false → ∀ c session, s.conns c = .http session → ¬ session.Refused) := by
  have hrefused : ∀ c session, s.conns c = .http session → session.Refused → _ := fun c session hc hr =>
    (decided_of_run h).verdict c session false hc hr
  refine ⟨hrefused, fun henabled i d hd => ?_, fun henabled c session hc hr => ?_⟩
  · have hiff := (throttled_of_run h henabled).decision_iff (Nat.cast_nonneg _) hd
    rw [← Bool.not_eq_true, hiff]
    simp only [not_forall, not_le, exists_prop]
  · obtain ⟨d, hm, -, hd⟩ := hrefused c session hc hr
    have := (unlimited_of_run h henabled).2 d hm
    simp [hd] at this

theorem refused_exactly_three : ∃ s, Run (Det step) (System.new oneASecond (fun _ => []) 0) threeClients s ∧
    (s.decisions.map (·.allowed) = [true, false, true]) ∧ ∀ i d, s.decisions[i]? = some d →
      (d.allowed = false ↔ ∃ j d', j ≤ i ∧ s.decisions[j]? = some d' ∧
        (oneASecond.throttling.burstSize.toNat +
          oneASecond.throttling.requestsPerSecond.toNat * (d.time - d'.time) : ℚ) <
          ((s.decisions.take i).drop j).countP (·.allowed) + 1) := by
  obtain ⟨s, h, hs⟩ := Lts.exists_run (p := fun s : System => s.decisions.map (·.allowed) = [true, false, true])
    (show ((threeClients.foldlM step (System.new oneASecond (fun _ => []) 0)).any _) = true by decide +kernel)
  exact ⟨s, h, of_decide_eq_true hs, (refused_exactly h).2.1 rfl⟩

end System

end MarketBridge
