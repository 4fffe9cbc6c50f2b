import MarketBridge.SessionRuns
import MarketBridge.SessionSpec
import MarketBridge.ShutdownSpec
import MarketBridge.SystemStep

/-!
# The parts of a run of the running server

A run of the whole is at once a run of the connections with their registry, a run of the listeners, and, for
each connection that has a session, a run of that session. So what holds of the runs of the parts holds in
every run of the whole.
-/

namespace MarketBridge

open Lts (Run Det)

def Conn.session? : Conn → Option HttpSession
  | http session => some session
  | _ => none

theorem Conn.session?_eq_some {conn : Conn} {session : HttpSession} :
    conn.session? = some session ↔ conn = .http session := by
  cases conn <;> simp [session?]

namespace Server

variable {s : Server} {as : List Event} {cfg : Config} {memory : ConnId → Bytes}

theorem frame_of_run (h : Run (Det step) (new cfg memory) as s) : s.cfg = cfg ∧ s.memory = memory :=
  h.invariant (I := fun s => s.cfg = cfg ∧ s.memory = memory)
    (fun _ _ _ ⟨hc, hm⟩ h => by
      obtain ⟨hc', hm'⟩ := (step_cases h).frame
      exact ⟨hc'.trans hc, hm'.trans hm⟩) ⟨rfl, rfl⟩

/-- Each session of a run of the server has gone through a run of its own. -/
theorem session_of_run {c : ConnId} {session : HttpSession} (h : Run (Det step) (new cfg memory) as s)
    (hc : s.conns c = .http session) :
    ∃ es, Run (Det HttpSession.step) (.new (new cfg memory).upstreamInfo (memory c)) es session ∧
      es.filter (!·.isCall) = sessionEvents as c ∧ es.count .stop ≤ 1 := by
  obtain ⟨es, hr, hf, hs⟩ := (traced_of_run h).http hc
  obtain ⟨rfl, rfl⟩ := frame_of_run h
  have hn := (inv_of_run h).registry.shutdown.stops_nodup
  exact ⟨es, hr, hf, hs.trans (List.nodup_iff_count_le_one.1 hn _)⟩

end Server

namespace System

variable {s t : System} {e : Event} {as : List Event} {cfg : Config} {memory : ConnId → Bytes} {now : ℚ}
  {c : ConnId}

def Event.ofSession (c : ConnId) : Event → Option HttpSession.Event
  | .server (.session c' e) => if c' = c then some e else none
  | _ => none

/-- What the peers of the connection, its client and its upstream server, have done, in order. -/
def peerEvents (as : List Event) (c : ConnId) : List HttpSession.Event :=
  (as.filterMap (Event.ofSession c)).filter (·.byPeer)

theorem peerEvents_cons (e : Event) (as : List Event) (c : ConnId) :
    peerEvents (e :: as) c = peerEvents [e] c ++ peerEvents as c := by
  rw [peerEvents, peerEvents, peerEvents, ← List.filter_append, ← List.filterMap_append]
  rfl

theorem sessionEvents_handler {c' : ConnId} {e : HttpSession.Event} (he : e.byPeer = false) (c : ConnId) :
    (Server.sessionEvents [.session c' e] c).filter (·.byPeer) = [] := by
  rw [Server.sessionEvents, List.filterMap_cons, Server.Event.ofSession]
  by_cases hc : c' = c
  · simp [hc, he]
  · simp [hc]

/-- The handlers that the clock, the limiter and the SSL context take part in are no events of a peer. -/
theorem Shows.peerEvents {bs : List Server.Event} (h : Shows e bs) (c : ConnId) :
    (Server.sessionEvents bs c).filter (·.byPeer) = System.peerEvents [e] c := by
  cases h with
  | runStart | timerExpires | runHeader => exact sessionEvents_handler rfl c
  | @server e he => cases e <;> rfl
  | _ => rfl

theorem peerEvents_of_shows {bss : List (List Server.Event)} (h : List.Forall₂ Shows as bss) (c : ConnId) :
    (Server.sessionEvents bss.flatten c).filter (·.byPeer) = peerEvents as c := by
  induction h with
  | nil => rfl
  | cons hs _ ih =>
    rw [List.flatten_cons, peerEvents_cons, ← ih, ← hs.peerEvents, Server.sessionEvents, List.filterMap_append,
      List.filter_append]
    rfl

theorem filter_byPeer (es : List HttpSession.Event) :
    es.filter (·.byPeer) = (es.filter (!·.isCall)).filter (·.byPeer) := by
  rw [List.filter_filter]
  refine List.filter_congr fun e _ => ?_
  cases e <;> rfl

/-! ### One step of one connection -/

/-- The connections move as by an event of the server, if at all. -/
theorem Step.server_step (h : Step s e t) :
    t.server = s.server ∨ ∃ e', Shows e [e'] ∧ s.server.step e' = some t.server := by
  obtain ⟨bs, hb, hr⟩ := h.server_run
  have hone : bs = [] ∨ ∃ e', bs = [e'] := by cases hb <;> simp
  rcases hone with rfl | ⟨e', rfl⟩
  · exact .inl (Option.some.inj (Lts.run_det_iff.1 hr)).symm
  · exact .inr ⟨e', hb, by simpa using Lts.run_det_iff.1 hr⟩

theorem Step.moves (h : Step s e t) (c : ConnId) : ∃ event,
    (s.conns c).Moves s.server.upstreamInfo (s.memory c) event (t.conns c) ∧
    ∀ e', event = some e' → Shows e [.session c e'] := by
  rcases h.server_step with he | ⟨e', hb, hs⟩
  · have hconns : t.conns = s.conns := congrArg Server.conns he
    rw [hconns]
    exact ⟨none, .stays _, by simp⟩
  · refine ⟨_, (Server.step_cases hs).moves c, fun e'' he => ?_⟩
    rwa [← Server.Event.ofSession_eq_some.1 he]

theorem Shows.runHeader_inv {allowed : Bool} (h : Shows e [.session c (.runHeader allowed)]) :
    e = .runHeader c := by
  cases h with
  | runHeader => rfl
  | server he => simp [Server.Event.isShared] at he

theorem Shows.runStart_inv {ok : Bool} (h : Shows e [.session c (.runStart ok)]) : e = .runStart c ok := by
  cases h with
  | runStart => rfl
  | server he => simp [Server.Event.isShared] at he

theorem Shows.timerExpires_inv (h : Shows e [.session c .timerExpires]) : e = .timerExpires c := by
  cases h with
  | timerExpires => rfl
  | server he => simp [Server.Event.isShared] at he

/-! ### The parts of a run -/

theorem server_of_run (h : Run (Det step) (new cfg memory now) as s) :
    ∃ bss, List.Forall₂ Shows as bss ∧ Run (Det Server.step) (.new cfg memory) bss.flatten s.server :=
  h.project (L := Shows) (f := server) fun _ _ _ h => (step_cases h).server_run

/-- What the listeners have heard of in a run. -/
theorem heard_of_hears {lss : List (List (Listeners.Event SessionId))}
    (h : List.Forall₂ (fun e ls => Hears e.heard ls) as lss) :
    lss.flatten.filter (·.fromOutside) = as.filterMap Event.heard ∧ .registry .scheduleShutdown ∉ lss.flatten := by
  induction h with
  | nil => exact ⟨rfl, List.not_mem_nil⟩
  | @cons e ls as lss hs _ ih =>
    refine ⟨?_, ?_⟩
    · rw [List.flatten_cons, List.filter_append, hs.1, ih.1]
      cases hh : e.heard with
      | none => rw [List.filterMap_cons_none hh]; rfl
      | some l => rw [List.filterMap_cons_some hh]; rfl
    · rw [List.flatten_cons, List.mem_append]
      exact not_or.2 ⟨hs.2, ih.2⟩

theorem listeners_of_run (h : Run (Det step) (new cfg memory now) as s) :
    ∃ ls, Run (Det Listeners.step) (.new cfg) ls s.listeners ∧
      ls.filter (·.fromOutside) = as.filterMap Event.heard ∧ .registry .scheduleShutdown ∉ ls := by
  obtain ⟨lss, hh, hr⟩ := h.project (L := fun e ls => Hears e.heard ls) (f := listeners) fun _ _ _ h =>
    (step_cases h).listeners_run
  exact ⟨_, hr, heard_of_hears hh⟩

/-- The session of a connection and what it has seen of its peers. -/
theorem session_of_run {session : HttpSession} (h : Run (Det step) (new cfg memory now) as s)
    (hc : s.conns c = .http session) :
    ∃ es, Run (Det HttpSession.step) (.new (Server.new cfg memory).upstreamInfo (memory c)) es session ∧
      es.filter (·.byPeer) = peerEvents as c ∧ es.count .stop ≤ 1 := by
  obtain ⟨bss, hs, hr⟩ := server_of_run h
  obtain ⟨es, hes, hf, hn⟩ := Server.session_of_run hr hc
  refine ⟨es, hes, ?_, hn⟩
  rw [filter_byPeer, hf, peerEvents_of_shows hs]

/-- A run of the whole is a run of the connections, a run of the listeners, who hear of the accepts and the signals
of the whole, and a run of every session. -/
theorem refines (h : Run (Det step) (new cfg memory now) as s) :
    (∃ bss, List.Forall₂ Shows as bss ∧ Run (Det Server.step) (.new cfg memory) bss.flatten s.server) ∧
    (∃ ls, Run (Det Listeners.step) (.new cfg) ls s.listeners ∧
      ls.filter (·.fromOutside) = as.filterMap Event.heard ∧ .registry .scheduleShutdown ∉ ls) ∧
    ∀ c session, s.conns c = .http session → ∃ es,
      Run (Det HttpSession.step) (.new (Server.new cfg memory).upstreamInfo (memory c)) es session ∧
      es.filter (·.byPeer) = peerEvents as c ∧ es.count .stop ≤ 1 :=
  ⟨server_of_run h, listeners_of_run h, fun _ _ hc => session_of_run h hc⟩

/-- A client connects to the HTTP port, and its session starts to read. -/
def connects (c : ConnId) : List Event :=
  [.listener (.checkShutdown .http), .listener (.startAccept .http), .accepted .http c,
   .listener (.resume .http), .dispatch .http ⟨true, true⟩, .server (.runDispatch c),
   .server (.registerSession ⟨c, .http⟩), .server (.startSession ⟨c, .http⟩), .runStart c true]

/-- The client sends its header block, which is handled. -/
def asks (c : ConnId) (raw : Bytes) : List Event :=
  [.server (.session c (.headerRead .success raw)), .runHeader c]

def healthServed : List Event :=
  connects 0 ++ asks 0 HttpSession.healthRequest ++ [.server (.session 0 .runReply)]

theorem refines_health : ∃ s, Run (Det step) (new {} (fun _ => []) 0) healthServed s ∧
    (∃ bss, List.Forall₂ Shows healthServed bss ∧
      Run (Det Server.step) (.new {} fun _ => []) bss.flatten s.server) ∧
    (∃ ls, Run (Det Listeners.step) (.new {}) ls s.listeners ∧
      ls.filter (·.fromOutside) = [.accepted .http .success] ∧ .registry .scheduleShutdown ∉ ls) ∧
    ∀ c session, s.conns c = .http session → ∃ es,
      Run (Det HttpSession.step) (.new (Server.new {} fun _ => []).upstreamInfo []) es session ∧
      es.filter (·.byPeer) = peerEvents healthServed c ∧ es.count .stop ≤ 1 := by
  obtain ⟨s, h, -⟩ := Lts.exists_run (p := fun _ => true)
    (show ((healthServed.foldlM step (new {} (fun _ => []) 0)).any fun _ => true) = true by decide +kernel)
  exact ⟨s, h, refines h⟩

end System

end MarketBridge
