import MarketBridge.ServerStep
import MarketBridge.StopSpec

/-!
# The sessions of a run of the server

What the other connections do, and in which order, does not reach a session: up to the calls of `start` and
`stop`, the session of a connection has gone through a run of its own on the events of that connection.
-/

namespace MarketBridge

open Lts (Run Det)

/-- A call from the server. -/
def HttpSession.Event.isCall : HttpSession.Event → Bool
  | .start | .stop => true
  | _ => false

/-- What has happened on a connection, where `es` are the events of its session and `stops` bounds the calls
of `stop`. -/
inductive Conn.Ran (upstreamInfo : UpstreamInfo) (memory : Bytes) (stops : Nat) (es : List HttpSession.Event) :
    Conn → Prop
  | early {conn : Conn} (hc : conn ≠ .closed) (hs : ∀ session, conn ≠ .http session) (he : es = []) :
      Ran upstreamInfo memory stops es conn
  | closed : Ran upstreamInfo memory stops es .closed
  | http {run : List HttpSession.Event} {session : HttpSession}
      (hr : Run (Det HttpSession.step) (.new upstreamInfo memory) run session)
      (he : run.filter (!·.isCall) = es) (hs : run.count .stop ≤ stops) :
      Ran upstreamInfo memory stops es (.http session)

/-- What one event does to a connection, where `event` is its event of the session. -/
inductive Conn.Moves (upstreamInfo : UpstreamInfo) (memory : Bytes) (event : Option HttpSession.Event) :
    Conn → Conn → Prop
  | stays (conn : Conn) : Moves upstreamInfo memory event conn conn
  | early {conn conn' : Conn} (hc : conn ≠ .closed) (hs : ∀ session, conn ≠ .http session)
      (hn : ∀ session, conn' = .http session → session = .new upstreamInfo memory) :
      Moves upstreamInfo memory event conn conn'
  | session {session session' : HttpSession} {e : HttpSession.Event} (hs : session.Step e session')
      (he : event = some e ∨ e = .start ∨ e = .stop) :
      Moves upstreamInfo memory event (.http session) (.http session')
  | ends (session : HttpSession) : Moves upstreamInfo memory event (.http session) .closed

namespace Server

variable {s t : Server} {e : Event} {as : List Event} {cfg : Config} {memory : ConnId → Bytes} {c : ConnId}

def Event.ofSession (c : ConnId) : Event → Option HttpSession.Event
  | .session c' e => if c' = c then some e else none
  | _ => none

theorem Event.ofSession_eq_some {e' : HttpSession.Event} : e.ofSession c = some e' ↔ e = .session c e' := by
  cases e with
  | session c' e'' =>
    rw [ofSession, Option.ite_none_right_eq_some, Option.some.injEq, Event.session.injEq]
  | _ => simp [ofSession]

/-- The events of the session of the connection, in order. -/
def sessionEvents (as : List Event) (c : ConnId) : List HttpSession.Event := as.filterMap (Event.ofSession c)

def Traced (as : List Event) (s : Server) : Prop := ∀ c,
  (s.conns c).Ran s.upstreamInfo (s.memory c) (s.registry.stops.count ⟨c, .http⟩) (sessionEvents as c)

theorem sessionEvents_snoc (as : List Event) (e : Event) (c : ConnId) :
    sessionEvents (as ++ [e]) c = sessionEvents as c ++ (e.ofSession c).toList := by
  rw [sessionEvents, List.filterMap_append, ← sessionEvents]
  cases h : e.ofSession c <;> simp [h]

theorem sessionEvents_silent (as : List Event) {c : ConnId} (he : e.ofSession c = none) :
    sessionEvents (as ++ [e]) c = sessionEvents as c := by
  rw [sessionEvents_snoc, he, Option.toList_none, List.append_nil]

theorem Traced.new : Traced [] (Server.new cfg memory) := fun _ =>
  .early (by simp [Server.new]) (by simp [Server.new]) rfl

theorem Traced.early {conn : Conn} (hi : Traced as s) (h : s.conns c = conn) (hc : conn ≠ .closed)
    (hs : ∀ session, conn ≠ .http session) : sessionEvents as c = [] := by
  have hr := hi c
  rw [h] at hr
  cases hr with
  | early _ _ he => exact he
  | closed => exact absurd rfl hc
  | http => exact absurd rfl (hs _)

theorem Traced.http {session : HttpSession} (hi : Traced as s) (h : s.conns c = .http session) :
    ∃ run, Run (Det HttpSession.step) (.new s.upstreamInfo (s.memory c)) run session ∧
      run.filter (!·.isCall) = sessionEvents as c ∧ run.count .stop ≤ s.registry.stops.count ⟨c, .http⟩ := by
  have hr := hi c
  rw [h] at hr
  cases hr with
  | early _ hs _ => exact absurd rfl (hs session)
  | http hr he hs => exact ⟨_, hr, he, hs⟩

/-- One connection changes, the registry calls no `stop`. -/
theorem Traced.setConn {conn : Conn} {r : Registry SessionId} (hi : Traced as s)
    (hr : r.stops = s.registry.stops) (he : ∀ c', c' ≠ c → e.ofSession c' = none)
    (hc : conn.Ran s.upstreamInfo (s.memory c) (s.registry.stops.count ⟨c, .http⟩) (sessionEvents (as ++ [e]) c)) :
    Traced (as ++ [e]) ({ s with registry := r }.setConn c conn) := by
  intro c'
  show Conn.Ran s.upstreamInfo (s.memory c') (r.stops.count _) _ _
  rw [setConn_conns, hr]
  rcases eq_or_ne c' c with rfl | hne
  · rw [if_pos rfl]
    exact hc
  · rw [if_neg hne, sessionEvents_silent as (he c' hne)]
    exact hi c'

/-- A connection without a session goes on. -/
theorem Traced.goOn {conn conn' : Conn} {r : Registry SessionId} (hi : Traced as s)
    (hr : r.stops = s.registry.stops) (he : ∀ c', e.ofSession c' = none) (h : s.conns c = conn)
    (hc : conn ≠ .closed) (hs : ∀ session, conn ≠ .http session) (hs' : ∀ session, conn' ≠ .http session) :
    Traced (as ++ [e]) ({ s with registry := r }.setConn c conn') := by
  refine hi.setConn hr (fun c' _ => he c') ?_
  rcases eq_or_ne conn' .closed with rfl | hc'
  · exact .closed
  · refine .early hc' hs' ?_
    rw [sessionEvents_silent as (he c)]
    exact hi.early h hc hs

/-- The session of a connection goes on by events of the run. -/
theorem Traced.sessionStep {session session' : HttpSession} {run run' : List HttpSession.Event}
    (hr : Run (Det HttpSession.step) (.new s.upstreamInfo (s.memory c)) run session)
    (hf : run.filter (!·.isCall) = sessionEvents as c) {n : Nat} (hs : (run ++ run').count .stop ≤ n)
    (hr' : Run (Det HttpSession.step) session run' session')
    (hf' : run'.filter (!·.isCall) = (e.ofSession c).toList) :
    Conn.Ran s.upstreamInfo (s.memory c) n (sessionEvents (as ++ [e]) c) (.http session') := by
  refine .http (hr.append hr') ?_ hs
  rw [List.filter_append, hf, hf', sessionEvents_snoc]

theorem Traced.stopNext {k : Nat} {active rest : List SessionId} {i : SessionId} {r : Registry SessionId}
    (hi : Traced as s) (hk : s.registry.calls[k]? = some (.stopping active (i :: rest)))
    (hr : Registry.Step s.registry (.stopNext k) r) :
    Traced (as ++ [.stopNext k]) ({ s with registry := r }.stopSession i) := by
  have hstops : r.stops = s.registry.stops ++ [i] := by
    cases hr with
    | stopNext h =>
      obtain ⟨-, rfl, -⟩ : _ ∧ _ ∧ _ := by simpa [hk] using h
      rfl
  have hmono : ∀ c, s.registry.stops.count ⟨c, .http⟩ ≤ r.stops.count ⟨c, .http⟩ := fun c => by
    rw [hstops, List.count_append]
    exact Nat.le_add_right ..
  have hgrow : ∀ c, (s.conns c).Ran s.upstreamInfo (s.memory c) (r.stops.count ⟨c, .http⟩)
      (sessionEvents (as ++ [.stopNext k]) c) := fun c => by
    rw [sessionEvents_silent as rfl]
    have hc := hi c
    revert hc
    generalize s.conns c = conn
    intro hc
    cases hc with
    | early h hs he => exact .early h hs he
    | closed => exact .closed
    | http hr he hs => exact .http hr he (hs.trans (hmono c))
  obtain ⟨c, kind⟩ := i
  unfold stopSession
  split
  · rename_i session h hkind
    obtain rfl : kind = .http := hkind
    obtain ⟨run, hr', hf, hs⟩ := hi.http (show s.conns c = .http session from h)
    intro c'
    show Conn.Ran s.upstreamInfo (s.memory c') (r.stops.count _) _ _
    rw [setConn_conns]
    split
    · rename_i hcc
      obtain rfl : c' = c := hcc
      refine Traced.sessionStep hr' hf (n := _) ?_ (.single rfl : Run _ _ [.stop] _) rfl
      rw [List.count_append, hstops, List.count_append]
      simpa using hs
    · exact hgrow c'
  · exact hgrow

theorem start_eq {session session' : HttpSession} (h : session.Step .start session') :
    session.step .start = some session' := by
  cases h with
  | start h => exact if_pos h

theorem session_inv {e : HttpSession.Event} (hst : s.step (.session c e) = some t) : ∃ session session',
    s.conns c = .http session ∧ session.step e = some session' ∧ t = s.setConn c (.http session') := by
  simp only [step] at hst
  split at hst
  · rename_i session h
    split at hst
    · cases hst
    · obtain ⟨session', hs, rfl⟩ := Option.map_eq_some_iff.1 hst
      exact ⟨session, session', h, hs, rfl⟩
  · cases hst

theorem Traced.step (hi : Traced as s) (hst : s.step e = some t) : Traced (as ++ [e]) t := by
  have h := step_cases hst
  cases h with
  | accept h | sniff h | peeked h | sniffFailed h | handshake h | handshaken h | handshakeFailed h =>
    exact hi.goOn (r := s.registry) rfl (fun _ => rfl) h (by simp) (by simp) (by simp)
  | dispatch h => exact hi.goOn (r := s.registry) rfl (fun _ => rfl) h (by simp) (by simp) (by simp)
  | @noContext c e h =>
    rcases h with ⟨rfl, h⟩ | ⟨rfl, data, h⟩
    · exact hi.goOn (r := s.registry) rfl (fun _ => rfl) h (by simp) (by simp) (by simp)
    · exact hi.goOn (r := s.registry) rfl (fun _ => rfl) h (by simp) (by simp) (by simp)
  | @secure c e r h hr =>
    have hstops := hr.stops (by simp)
    rcases h with ⟨rfl, h⟩ | ⟨rfl, data, h⟩
    · exact hi.goOn hstops (fun _ => rfl) h (by simp) (by simp) (by simp)
    · exact hi.goOn hstops (fun _ => rfl) h (by simp) (by simp) (by simp)
  | @launch c e r h hr =>
    obtain ⟨he, hn⟩ : (∀ c', e.ofSession c' = none) ∧ sessionEvents as c = [] := by
      rcases h with ⟨rfl, h, -⟩ | ⟨ok, data, rfl, h⟩ | ⟨rfl, h⟩
      · exact ⟨fun _ => rfl, hi.early h (by simp) (by simp)⟩
      · exact ⟨fun _ => rfl, hi.early h (by simp) (by simp)⟩
      · exact ⟨fun _ => rfl, hi.early h (by simp) (by simp)⟩
    refine hi.setConn (hr.stops (by simp)) (fun c' _ => he c') (.http (.nil _) ?_ (Nat.zero_le _))
    rw [sessionEvents_silent as (he c), hn]
    rfl
  | @registerHandshake c r h hr =>
    refine hi.goOn (hr.stops (by simp)) (fun _ => rfl) h (by simp) (by simp) fun session => ?_
    split <;> simp
  | @registerHttp c session r h hh hr =>
    obtain ⟨run, hr', hf, hs⟩ := hi.http h
    refine hi.setConn (hr.stops (by simp)) (fun _ _ => rfl) ?_
    split
    · exact .closed
    · rw [sessionEvents_silent as rfl]
      exact .http hr' hf hs
  | startHandshake h hr => exact hi.goOn (hr.stops (by simp)) (fun _ => rfl) h (by simp) (by simp) (by simp)
  | @startHttp c session session' r h hs hr =>
    obtain ⟨run, hr', hf, hn⟩ := hi.http h
    refine hi.setConn (hr.stops (by simp)) (fun _ _ => rfl)
      (Traced.sessionStep hr' hf ?_ (.single (start_eq hs) : Run _ _ [.start] _) rfl)
    rw [List.count_append]
    simpa using hn
  | @session c e session session' h he he' hs =>
    obtain ⟨run, hr', hf, hn⟩ := hi.http h
    obtain ⟨session₀, session₁, h₀, hs', ht⟩ := session_inv hst
    obtain rfl := Conn.http.inj (h.symm.trans h₀)
    rw [ht]
    refine hi.setConn (r := s.registry) rfl (fun c' hc => ?_)
      (Traced.sessionStep hr' hf ?_ (.single hs' : Run _ _ [e] _) ?_)
    · simp [Event.ofSession, hc.symm]
    · rw [List.count_append]
      simpa [List.count_singleton, he'] using hn
    · cases e <;> simp_all [Event.ofSession, HttpSession.Event.isCall]
  | @finish c session h hp hr => exact hi.setConn (r := s.registry) rfl (fun _ _ => rfl) .closed
  | @destroy i r hu hr =>
    intro c
    show (s.conns c).Ran s.upstreamInfo (s.memory c) (r.stops.count _) _
    rw [sessionEvents_silent as rfl, hr.stops (by simp)]
    exact hi c
  | @shutdown e a r he hr =>
    intro c
    show (s.conns c).Ran s.upstreamInfo (s.memory c) (r.stops.count _) _
    have hsilent : e.ofSession c = none ∧ ∀ k, a ≠ .stopNext k := by
      cases e <;> simp only [Event.shutdownAction, Option.some.injEq, reduceCtorEq] at he
      all_goals subst he; simp [Event.ofSession]
    rw [sessionEvents_silent as hsilent.1, hr.stops hsilent.2]
    exact hi c
  | stopNext hk hr => exact hi.stopNext hk hr

/-! ### One step of one connection -/

theorem moves_setConn {c' : ConnId} {conn conn' : Conn} {r : Registry SessionId} (h : s.conns c' = conn)
    (hm : conn.Moves s.upstreamInfo (s.memory c') (e.ofSession c') conn') (c : ConnId) :
    (s.conns c).Moves s.upstreamInfo (s.memory c) (e.ofSession c)
      (({ s with registry := r }.setConn c' conn').conns c) := by
  rw [setConn_conns]
  rcases eq_or_ne c c' with rfl | hne
  · rw [if_pos rfl, h]
    exact hm
  · rw [if_neg hne]
    exact .stays _

theorem moves_early {c' : ConnId} {conn conn' : Conn} {r : Registry SessionId} (h : s.conns c' = conn)
    (hc : conn ≠ .closed) (hs : ∀ session, conn ≠ .http session)
    (hn : ∀ session, conn' = .http session → session = .new s.upstreamInfo (s.memory c')) (c : ConnId) :
    (s.conns c).Moves s.upstreamInfo (s.memory c) (e.ofSession c)
      (({ s with registry := r }.setConn c' conn').conns c) :=
  moves_setConn h (.early hc hs hn) c

theorem Secures.early {ok : Bool} (h : s.Secures c ok e) :
    s.conns c ≠ .closed ∧ ∀ session, s.conns c ≠ .http session := by
  rcases h with ⟨-, h⟩ | ⟨-, data, h⟩ <;> simp [h]

theorem Launches.early (h : s.Launches c e) : s.conns c ≠ .closed ∧ ∀ session, s.conns c ≠ .http session := by
  rcases h with ⟨-, h, -⟩ | ⟨ok, data, -, h⟩ | ⟨-, h⟩ <;> simp [h]

theorem Step.moves (h : Step s e t) (c : ConnId) :
    (s.conns c).Moves s.upstreamInfo (s.memory c) (e.ofSession c) (t.conns c) := by
  cases h with
  | accept h | dispatch h | sniff h | peeked h | sniffFailed h | handshake h | handshaken h | handshakeFailed h =>
    exact moves_early (r := s.registry) h (by simp) (by simp) (by simp) c
  | noContext h => exact moves_early (r := s.registry) rfl h.early.1 h.early.2 (by simp) c
  | secure h => exact moves_early rfl h.early.1 h.early.2 (by simp) c
  | launch h =>
    refine moves_early rfl h.early.1 h.early.2 (fun session hs => ?_) c
    exact (Conn.http.inj hs).symm
  | registerHandshake h =>
    refine moves_early h (by simp) (by simp) (fun session hs => ?_) c
    split at hs <;> simp at hs
  | @registerHttp c' session r h =>
    refine moves_setConn h ?_ c
    split
    · exact .ends session
    · exact .stays _
  | startHandshake h => exact moves_early h (by simp) (by simp) (by simp) c
  | startHttp h hs => exact moves_setConn h (.session hs (.inr (.inl rfl))) c
  | @session c' e session session' h _ _ hs =>
    exact moves_setConn (r := s.registry) h (.session hs (.inl (by simp [Event.ofSession]))) c
  | finish h => exact moves_setConn (r := s.registry) h (.ends _) c
  | destroy | shutdown => exact .stays _
  | @stopNext k active rest i r =>
    unfold stopSession
    split
    · rename_i session h _
      exact moves_setConn (s := s) (r := r) h (.session .stop (.inr (.inr rfl))) c
    · exact .stays _

theorem traced_of_run (h : Run (Det step) (new cfg memory) as s) : Traced as s :=
  h.trace_invariant .new fun _ _ _ _ hi h => hi.step h

end Server

end MarketBridge
