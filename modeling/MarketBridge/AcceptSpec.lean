import MarketBridge.ThrottleSpec
import Mathlib.Data.List.Perm.Subperm

/-!
# The connections that a run takes

A socket is held by the listener that has been given it until its completion handler is called. In
single-request mode each acceptor gives out one socket at most, so a run of the whole sees no more connections
than there are acceptors.
-/

namespace MarketBridge

open Lts (Run Det)

/-- The listener has passed the connection on. -/
structure Conn.Gone (conn : Conn) : Prop where
  fresh : conn ≠ .fresh
  accepted : ∀ p, conn ≠ .accepted p

/-- What one event does to a connection on its way through a listener. -/
inductive Conn.Passes (c : ConnId) (e : Server.Event) : Conn → Conn → Prop
  | stays (conn : Conn) : Passes c e conn conn
  | accept {p : Port} (he : e = .accept c p) : Passes c e .fresh (.accepted p)
  | handle {p : Port} {ok : Bool} {conn : Conn} (he : e = .runListener c ok) (hg : conn.Gone) :
      Passes c e (.accepted p) conn
  | later {conn conn' : Conn} (hg : conn.Gone) (hg' : conn'.Gone) : Passes c e conn conn'

namespace Server

variable {s t : Server} {e : Event} {c : ConnId}

theorem passes_setConn {c' : ConnId} {conn conn' : Conn} {r : Registry SessionId} (h : s.conns c' = conn)
    (hp : conn.Passes c' e conn') (c : ConnId) :
    (s.conns c).Passes c e (({ s with registry := r }.setConn c' conn').conns c) := by
  rw [setConn_conns]
  rcases eq_or_ne c c' with rfl | hne
  · rw [if_pos rfl, h]
    exact hp
  · rw [if_neg hne]
    exact .stays _

theorem gone_handshake {task : HandshakeTask} : (Conn.handshake task).Gone := ⟨by simp, by simp⟩

theorem gone_http {session : HttpSession} : (Conn.http session).Gone := ⟨by simp, by simp⟩

theorem gone_sniffing {op : Await (ErrorCode × Bytes)} : (Conn.sniffing op).Gone := ⟨by simp, by simp⟩

theorem gone_closed : Conn.closed.Gone := ⟨by simp, by simp⟩

theorem Secures.passes {ok : Bool} {conn : Conn} (h : s.Secures c ok e) (hg : conn.Gone) :
    (s.conns c).Passes c e conn := by
  rcases h with ⟨rfl, hc⟩ | ⟨rfl, data, hc⟩ <;> rw [hc]
  · exact .handle rfl hg
  · exact .later gone_sniffing hg

theorem Launches.passes {session : HttpSession} (h : s.Launches c e) :
    (s.conns c).Passes c e (.http session) := by
  rcases h with ⟨-, hc, -⟩ | ⟨ok, data, -, hc⟩ | ⟨-, hc⟩ <;> rw [hc]
  · exact .later ⟨by simp, by simp⟩ gone_http
  · exact .later gone_sniffing gone_http
  · exact .later gone_handshake gone_http

theorem Step.passes (h : Step s e t) (c : ConnId) : (s.conns c).Passes c e (t.conns c) := by
  cases h with
  | accept h => exact passes_setConn (r := s.registry) h (.accept rfl) c
  | dispatch h => exact passes_setConn (r := s.registry) h (.handle rfl ⟨by simp, by simp⟩) c
  | sniff h => exact passes_setConn (r := s.registry) h (.later ⟨by simp, by simp⟩ gone_sniffing) c
  | peeked h => exact passes_setConn (r := s.registry) h (.later gone_sniffing gone_sniffing) c
  | sniffFailed h => exact passes_setConn (r := s.registry) h (.later gone_sniffing gone_closed) c
  | noContext h => exact passes_setConn (r := s.registry) rfl (h.passes gone_closed) c
  | secure h => exact passes_setConn rfl (h.passes gone_handshake) c
  | launch h => exact passes_setConn rfl h.passes c
  | registerHandshake h =>
    refine passes_setConn h (.later gone_handshake ?_) c
    split
    · exact gone_closed
    · exact gone_handshake
  | registerHttp h =>
    refine passes_setConn h (.later gone_http ?_) c
    split
    · exact gone_closed
    · exact gone_http
  | startHandshake h => exact passes_setConn h (.later gone_handshake gone_handshake) c
  | startHttp h => exact passes_setConn h (.later gone_http gone_http) c
  | handshake h | handshaken h =>
    exact passes_setConn (r := s.registry) h (.later gone_handshake gone_handshake) c
  | handshakeFailed h => exact passes_setConn (r := s.registry) h (.later gone_handshake gone_closed) c
  | session h => exact passes_setConn (r := s.registry) h (.later gone_http gone_http) c
  | finish h => exact passes_setConn (r := s.registry) h (.later gone_http gone_closed) c
  | destroy | shutdown => exact .stays _
  | @stopNext k active rest i r =>
    unfold stopSession
    split
    · rename_i session h _
      exact passes_setConn (s := s) (r := r) h (.later gone_http gone_http) c
    · exact .stays _

end Server

namespace Listeners

variable {ι : Type} {s t : Listeners ι} {p : Port}

theorem setTask_tasks (s : Listeners ι) (q p : Port) (task : ListenerTask) :
    (s.setTask q task).tasks p = if p = q then task else s.tasks p := by
  simp [setTask, Function.update_apply]

theorem inHand_close (h : (s.tasks p).InHand) (q : Port) : ((s.close q).tasks p).InHand := by
  show (Function.update s.tasks q (s.tasks q).cancel p).InHand
  rcases eq_or_ne p q with rfl | hne
  · rw [Function.update_self]
    rcases h with h | h <;> rw [h]
    · exact .inl rfl
    · exact .inr rfl
  · rwa [Function.update_of_ne hne]

theorem inHand_uninstallListener (h : (s.tasks p).InHand) (q : Port) :
    ((s.uninstallListener q).tasks p).InHand := by
  unfold uninstallListener
  split
  · exact inHand_close h q
  · exact h

/-- Another listener has taken a step. -/
theorem inHand_setTask {q : Port} {task : ListenerTask} (h : (s.tasks p).InHand)
    (hq : p = q → task.InHand) : ((s.setTask q task).tasks p).InHand := by
  rw [setTask_tasks]
  split
  · exact hq ‹_›
  · exact h

/-- A connection stays in the hand of its listener until it is dispatched. -/
theorem Step.inHand [DecidableEq ι] {a : Event ι} (h : Step s a t) (hp : (s.tasks p).InHand)
    (ha : a ≠ .dispatch p) :
    (t.tasks p).InHand := by
  have hother {q : Port} {task : ListenerTask} (hq : s.tasks q = task) (hn : ¬ task.InHand) : p ≠ q := by
    rintro rfl
    exact hn (hq ▸ hp)
  cases h with
  | leaveLoop h | enterLoop h | startAccept h | accepted h | cancelSignals h =>
    refine inHand_setTask hp fun hpq => absurd hpq (hother h ?_)
    rintro (h | h) <;> cases h
  | @resume q ec h =>
    refine inHand_setTask hp ?_
    rintro rfl
    rw [h] at hp
    rcases hp with hp | hp
    · simp only [ListenerTask.accepting.injEq, Await.ready.injEq] at hp
      subst hp
      exact .inr rfl
    · cases hp
  | @dispatch q h =>
    refine inHand_setTask hp ?_
    rintro rfl
    exact absurd rfl ha
  | uninstallHttp h | uninstallHttps h =>
    refine inHand_setTask (inHand_uninstallListener hp _) fun hpq => absurd hpq (hother h ?_)
    rintro (h | h) <;> cases h
  | closeAcceptors =>
    have hhttp := inHand_close (s := { s with registry := _ }) hp .http
    exact inHand_close (s := Listeners.close _ _) hhttp .https
  | _ => exact hp

/-- In single-request mode a listener that has been given a connection comes back to no other one. -/
theorem Step.taken [DecidableEq ι] {a : Event ι} (h : Step s a t)
    (hmode : s.cfg.server.runMode = .SingleRequest) (hp : (s.tasks p).InHand ∨ (s.tasks p).IsPast) :
    (t.tasks p).InHand ∨ (t.tasks p).IsPast := by
  rcases hp with hp | hp
  · by_cases ha : a = .dispatch p
    · subst ha
      cases h with
      | dispatch =>
        rw [if_pos hmode]
        exact .inr (.inl (Function.update_self ..))
    · exact .inl (h.inHand hp ha)
  · refine .inr ?_
    by_cases ha : ∃ q, a = .accepted q .success
    · obtain ⟨q, rfl⟩ := ha
      cases h with
      | accepted h =>
        have hne : p ≠ q := by
          rintro rfl
          rw [h] at hp
          rcases hp with hp | ⟨_, hp⟩ | hp <;> cases hp
        rwa [setTask_tasks, if_neg hne]
    · exact (h.quiet hmode (not_exists.1 ha) p).past hp

end Listeners

namespace System

variable {s t : System} {e : Event} {as : List Event} {cfg : Config} {memory : ConnId → Bytes} {now : ℚ}
  {c : ConnId}

/-! ### The sockets of the listeners -/

/-- A step hands a socket to a listener, lets a listener pass its socket on, or does neither. -/
inductive SocketStep (s : System) (e : Event) (t : System) : Prop
  | accepted {p : Port} {c : ConnId} (he : e = .accepted p c)
      (ht : t.sockets = Function.update s.sockets p (some c)) (hs : s.server.step (.accept c p) = some t.server)
  | dispatch {p : Port} {files : TlsFiles} {c : ConnId} {ok : Bool} (he : e = .dispatch p files)
      (hc : s.sockets p = some c) (ht : t.sockets = Function.update s.sockets p none)
      (hs : s.server.step (.runListener c ok) = some t.server)
  | other (ha : ∀ p c, e ≠ .accepted p c) (hd : ∀ p files, e ≠ .dispatch p files) (ht : t.sockets = s.sockets)

theorem sockets_serverStep {e : Server.Event} (h : s.serverStep e = some t) : t.sockets = s.sockets := by
  rw [(of_serverStep h).2]
  rfl

theorem Step.socketStep (h : Step s e t) : s.SocketStep e t := by
  cases h with
  | accepted hl ht =>
    have hs := (of_serverStep ht).1
    rw [server_listeners hl (by simp) (by simp)] at hs
    have hsockets := sockets_serverStep ht
    exact .accepted rfl hsockets hs
  | @dispatch p files c listeners t hc hl ht =>
    have hserver := server_listeners hl (by simp) (by simp) (Function.update s.sockets p none)
    cases p with
    | http =>
      have hs := (of_serverStep ht).1
      rw [hserver] at hs
      have hsockets := sockets_serverStep ht
      exact .dispatch rfl hc hsockets hs
    | https =>
      have ht' := of_sslHandshake ht
      have hs := (of_serverStep ht').1
      have hsockets := sockets_serverStep ht'
      exact .dispatch rfl hc hsockets ((congrArg (Server.step · _) hserver).symm.trans hs)
  | runSniffTls _ ht =>
    have hsockets := sockets_serverStep (of_sslHandshake ht)
    exact .other (by simp) (by simp) hsockets
  | tick => exact .other (by simp) (by simp) rfl
  | runSniff _ ht | timerExpires _ _ ht | runHeader _ _ ht | server _ ht =>
    exact .other (by simp) (by simp) (sockets_serverStep ht)
  | runStart ht | decide _ _ ht =>
    have hsockets := sockets_serverStep ht
    exact .other (by simp) (by simp) hsockets
  | closeAcceptors ht | listener _ ht =>
    rw [(of_listenerStep ht).2]
    exact .other (by simp) (by simp) rfl

theorem Shows.accept_inv {p : Port} (h : Shows e [.accept c p]) : e = .accepted p c := by
  cases h with
  | accepted => rfl
  | server he => simp [Server.Event.isShared] at he

theorem Shows.runListener_inv {ok : Bool} (h : Shows e [.runListener c ok]) :
    ∃ p files, e = .dispatch p files := by
  cases h with
  | dispatch => exact ⟨_, _, rfl⟩
  | server he => simp [Server.Event.isShared] at he

/-- A connection goes through the listeners by their own events only. -/
theorem Step.conn_kept (h : Step s e t) (ha : ∀ p c, e ≠ .accepted p c) (hd : ∀ p files, e ≠ .dispatch p files)
    (c : ConnId) : t.conns c = s.conns c ∨ (s.conns c).Gone ∧ (t.conns c).Gone := by
  rcases h.server_step with he | ⟨e', hb, hs⟩
  · exact .inl (congrFun (congrArg Server.conns he) c)
  · have hp := (Server.step_cases hs).passes c
    revert hp
    show (s.conns c).Passes c e' (t.conns c) → _
    generalize s.conns c = conn
    generalize t.conns c = conn'
    intro hp
    cases hp with
    | stays => exact .inl rfl
    | accept he =>
      subst he
      exact absurd hb.accept_inv (ha _ _)
    | handle he =>
      subst he
      obtain ⟨p, files, he⟩ := hb.runListener_inv
      exact absurd he (hd p files)
    | later hg hg' => exact .inr ⟨hg, hg'⟩

theorem tasks_serverStep {e : Server.Event} (h : s.serverStep e = some t) :
    t.listeners.tasks = s.listeners.tasks := by
  rw [(of_serverStep h).2]
  rfl

/-- Of the listeners' state the connections change the registry only. -/
theorem Step.tasks (h : Step s e t) : t.listeners.tasks = s.listeners.tasks ∨
    ∃ l u, s.listeners.step l = some u ∧ t.listeners.tasks = u.tasks ∧
      (∀ p, l = .accepted p .success → ∃ c, e = .accepted p c) ∧
      ∀ p, l = .dispatch p → ∃ files, e = .dispatch p files := by
  cases h with
  | tick => exact .inl rfl
  | accepted hl ht =>
    have htasks := tasks_serverStep ht
    exact .inr ⟨_, _, hl, htasks, fun p hp => by simp_all, by simp⟩
  | @dispatch p files c listeners t hc hl ht =>
    refine .inr ⟨_, _, hl, ?_, by simp, fun p hp => by simp_all⟩
    cases p with
    | http =>
      have htasks := tasks_serverStep ht
      exact htasks
    | https =>
      have htasks := tasks_serverStep (of_sslHandshake ht)
      exact htasks
  | runSniff _ ht | timerExpires _ _ ht | runHeader _ _ ht | server _ ht => exact .inl (tasks_serverStep ht)
  | runStart ht | decide _ _ ht =>
    have htasks := tasks_serverStep ht
    exact .inl htasks
  | runSniffTls _ ht =>
    have htasks := tasks_serverStep (of_sslHandshake ht)
    exact .inl htasks
  | closeAcceptors ht => exact .inr ⟨_, _, (of_listenerStep ht).1, rfl, by simp, by simp⟩
  | listener he ht =>
    refine .inr ⟨_, _, (of_listenerStep ht).1, rfl, fun p hp => ?_, fun p hp => ?_⟩ <;> subst hp
    · simp [Listeners.Event.isShared] at he
    · simp [Listeners.Event.isShared] at he

/-- A listener holds the socket of a connection exactly while it is to handle it. -/
structure Holds (s : System) : Prop where
  sockets : ∀ p c, s.sockets p = some c ↔ s.conns c = .accepted p
  inHand : ∀ p c, s.sockets p = some c → (s.listeners.tasks p).InHand

theorem Holds.new : (new cfg memory now).Holds := by
  constructor <;> simp [System.new]

theorem server_accept {p : Port} (h : s.server.step (.accept c p) = some t.server) :
    s.conns c = .fresh ∧ t.conns = Function.update s.conns c (.accepted p) := by
  have hst := Server.step_cases h
  generalize ht : t.server = u at hst
  have hconns : t.conns = u.conns := congrArg Server.conns ht
  rw [hconns]
  cases hst with
  | accept h => exact ⟨h, rfl⟩
  | noContext h | secure h =>
    rcases h with ⟨he, -⟩ | ⟨he, -⟩ <;> cases he
  | launch h =>
    rcases h with ⟨he, -⟩ | ⟨_, _, he, -⟩ | ⟨he, -⟩ <;> cases he
  | shutdown ha => cases ha

theorem server_runListener {ok : Bool} (h : s.server.step (.runListener c ok) = some t.server) :
    (t.conns c).Gone ∧ ∀ c', c' ≠ c → t.conns c' = s.conns c' := by
  have hst := Server.step_cases h
  generalize ht : t.server = u at hst
  have hconns : t.conns = u.conns := congrArg Server.conns ht
  have hset {conn : Conn} {r : Registry SessionId} (hg : conn.Gone)
      (hu : u = { s.server with registry := r }.setConn c conn) :
      (t.conns c).Gone ∧ ∀ c', c' ≠ c → t.conns c' = s.conns c' := by
    rw [hconns, hu]
    refine ⟨?_, fun c' hne => ?_⟩
    · rw [Server.setConn_conns, if_pos rfl]
      exact hg
    · rw [Server.setConn_conns, if_neg hne]
      rfl
  cases hst with
  | dispatch => exact hset (r := s.server.registry) ⟨by simp, by simp⟩ rfl
  | noContext h =>
    rcases h with ⟨he, -⟩ | ⟨he, -⟩
    · obtain ⟨rfl, -⟩ := Server.Event.runListener.inj he
      exact hset (r := s.server.registry) Server.gone_closed rfl
    · cases he
  | secure h =>
    rcases h with ⟨he, -⟩ | ⟨he, -⟩
    · obtain ⟨rfl, -⟩ := Server.Event.runListener.inj he
      exact hset Server.gone_handshake rfl
    · cases he
  | launch h =>
    rcases h with ⟨he, -⟩ | ⟨_, _, he, -⟩ | ⟨he, -⟩ <;> cases he
  | shutdown ha => cases ha

theorem Step.inHand {p : Port} (h : Step s e t) (hp : (s.listeners.tasks p).InHand)
    (hne : ∀ files, e ≠ .dispatch p files) : (t.listeners.tasks p).InHand := by
  rcases h.tasks with htasks | ⟨l, u, hl, htasks, -, hd⟩ <;> rw [htasks]
  · exact hp
  · refine (Listeners.step_cases hl).inHand hp ?_
    rintro rfl
    obtain ⟨files, he⟩ := hd p rfl
    exact hne files he

theorem Holds.step (hi : s.Holds) (h : Step s e t) : t.Holds := by
  cases h.socketStep with
  | @accepted p c he ht hs =>
    subst he
    obtain ⟨hfresh, hconns⟩ := server_accept hs
    have hnone : s.sockets p = none := by
      cases hc : s.sockets p with
      | none => rfl
      | some c' =>
        cases h with
        | accepted hl =>
          have hp := hi.inHand p c' hc
          cases Listeners.step_cases hl with
          | accepted h => rcases hp with hp | hp <;> simp [h] at hp
    refine ⟨fun p' c' => ?_, fun p' c' hc => ?_⟩
    · rw [ht, hconns]
      rcases eq_or_ne p' p with rfl | hp <;> rcases eq_or_ne c' c with rfl | hc
      · simp
      · rw [Function.update_self, Function.update_of_ne hc, ← hi.sockets, hnone]
        simp [hc.symm]
      · rw [Function.update_of_ne hp, Function.update_self, hi.sockets, hfresh]
        simp [hp.symm]
      · rw [Function.update_of_ne hp, Function.update_of_ne hc]
        exact hi.sockets p' c'
    · rw [ht] at hc
      rcases eq_or_ne p' p with rfl | hp
      · cases h with
        | accepted hl ht' =>
          have htasks' := tasks_serverStep ht'
          cases Listeners.step_cases hl with
          | accepted h =>
            rw [htasks']
            exact .inl (Function.update_self ..)
      · rw [Function.update_of_ne hp] at hc
        exact h.inHand (hi.inHand p' c' hc) (by simp)
  | @dispatch p files c ok he hc ht hs =>
    subst he
    have hc' := (hi.sockets p c).1 hc
    obtain ⟨hgone, hkept⟩ := server_runListener hs
    refine ⟨fun p' c' => ?_, fun p' c' hs' => ?_⟩
    · rw [ht]
      rcases eq_or_ne c' c with rfl | hne
      · refine iff_of_false (fun hs' => ?_) (hgone.accepted p')
        rcases eq_or_ne p' p with rfl | hp
        · simp at hs'
        · rw [Function.update_of_ne hp, hi.sockets, hc'] at hs'
          exact hp (Conn.accepted.inj hs').symm
      · rw [hkept c' hne]
        rcases eq_or_ne p' p with rfl | hp
        · rw [Function.update_self, ← hi.sockets, hc]
          simp [hne.symm]
        · rw [Function.update_of_ne hp]
          exact hi.sockets p' c'
    · rw [ht] at hs'
      rcases eq_or_ne p' p with rfl | hp
      · simp at hs'
      · rw [Function.update_of_ne hp] at hs'
        exact h.inHand (hi.inHand p' c' hs') (by simp [hp.symm])
  | other ha hd ht =>
    refine ⟨fun p c => ?_, fun p c hs => ?_⟩
    · rw [ht, hi.sockets]
      rcases h.conn_kept ha hd c with he | ⟨hg, hg'⟩
      · rw [he]
      · exact iff_of_false (hg.accepted p) (hg'.accepted p)
    · exact h.inHand (hi.inHand p c (ht ▸ hs)) fun files => hd p files

theorem holds_of_run (h : Run (Det step) (new cfg memory now) as s) : s.Holds :=
  h.invariant (fun _ _ _ hi h => hi.step (step_cases h)) .new

/-! ### Single-request mode -/

theorem Step.config (h : Step s e t) : t.listeners.cfg = s.listeners.cfg := by
  rcases h.server_step with he | ⟨e', -, hs⟩
  · exact congrArg Server.cfg he
  · exact (Server.step_cases hs).frame.1

/-- The connection that an event takes from the acceptor of the port. -/
def Event.takenOn (p : Port) : Event → Option ConnId
  | .accepted q c => if q = p then some c else none
  | _ => none

/-- The connections that a run has taken from the acceptor of the port. -/
def takenOn (p : Port) (as : List Event) : List ConnId := as.filterMap (Event.takenOn p)

theorem takenOn_accepted (p q : Port) (as : List Event) (c : ConnId) :
    takenOn q (as ++ [.accepted p c]) = takenOn q as ++ if q = p then [c] else [] := by
  rcases eq_or_ne q p with rfl | hne
  · simp [takenOn, Event.takenOn]
  · simp [takenOn, Event.takenOn, hne, hne.symm]

theorem takenOn_silent (p : Port) (as : List Event) (he : ∀ p c, e ≠ .accepted p c) :
    takenOn p (as ++ [e]) = takenOn p as := by
  have hn : e.takenOn p = none := by
    cases e with
    | accepted q c => exact absurd rfl (he q c)
    | _ => rfl
  simp [takenOn, hn]

/-- Every connection has been taken from an acceptor, and one that has given a connection out gives out no other. -/
structure Owned (cfg : Config) (as : List Event) (s : System) : Prop where
  config : s.listeners.cfg = cfg
  owned : ∀ c, s.conns c ≠ .fresh → ∃ p, c ∈ takenOn p as
  one : ∀ p, (takenOn p as).length ≤ 1
  taken : ∀ p, takenOn p as ≠ [] → (s.listeners.tasks p).InHand ∨ (s.listeners.tasks p).IsPast
  absent : ∀ p, hasAcceptor cfg p = false → takenOn p as = [] ∧ (s.listeners.tasks p).IsPast

theorem Owned.new : Owned cfg [] (System.new cfg memory now) where
  config := rfl
  owned c h := absurd rfl h
  one p := Nat.zero_le _
  taken p h := absurd rfl h
  absent p h := by
    refine ⟨rfl, .inr (.inr ?_)⟩
    show (if hasAcceptor cfg p then ListenerTask.loop else .returned) = _
    rw [h]
    rfl

theorem Step.taken {p : Port} (h : Step s e t) (hmode : s.listeners.cfg.server.runMode = .SingleRequest)
    (hp : (s.listeners.tasks p).InHand ∨ (s.listeners.tasks p).IsPast) :
    (t.listeners.tasks p).InHand ∨ (t.listeners.tasks p).IsPast := by
  rcases h.tasks with htasks | ⟨l, u, hl, htasks, -, -⟩ <;> rw [htasks]
  · exact hp
  · exact (Listeners.step_cases hl).taken hmode hp

theorem Step.quiet (h : Step s e t) (hmode : s.listeners.cfg.server.runMode = .SingleRequest)
    (ha : ∀ p c, e ≠ .accepted p c) (p : Port) :
    ListenerTask.Quiet (s.listeners.tasks p) (t.listeners.tasks p) := by
  rcases h.tasks with htasks | ⟨l, u, hl, htasks, he, -⟩ <;> rw [htasks]
  · exact .refl
  · refine (Listeners.step_cases hl).quiet hmode (fun p' hp => ?_) p
    obtain ⟨c, he⟩ := he p' hp
    exact ha p' c he

/-- Connections come from accepts only. -/
theorem Step.fresh (h : Step s e t) (ha : ∀ p c, e ≠ .accepted p c) (hi : s.Holds) (c : ConnId)
    (hc : t.conns c ≠ .fresh) : s.conns c ≠ .fresh := by
  intro hs
  cases h.socketStep with
  | accepted he => exact ha _ _ he
  | @dispatch p files c' ok he hc' ht hst =>
    have hp := (hi.sockets p c').1 hc'
    have hne : c ≠ c' := by
      rintro rfl
      simp [hp] at hs
    exact hc (((server_runListener hst).2 c hne).trans hs)
  | other _ hd _ =>
    rcases h.conn_kept ha hd c with he | ⟨hg, -⟩
    · exact hc (he.trans hs)
    · exact hg.fresh hs

theorem Step.accepted_inv {p : Port} (h : Step s (.accepted p c) t) :
    s.listeners.tasks p = .accepting .pending ∧ t.conns = Function.update s.conns c (.accepted p) ∧
      ∀ q, t.listeners.tasks q = if q = p then .accepting (.ready .success) else s.listeners.tasks q := by
  cases h with
  | accepted hl ht =>
    have hs := (of_serverStep ht).1
    rw [server_listeners hl (by simp) (by simp)] at hs
    have htasks := tasks_serverStep ht
    cases Listeners.step_cases hl with
    | accepted hp =>
      exact ⟨hp, (server_accept hs).2, fun q => (congrFun htasks q).trans (Listeners.setTask_tasks _ _ _ _)⟩

theorem Owned.accepted {p : Port} (hi : Owned cfg as s) (h : Step s (.accepted p c) t) :
    Owned cfg (as ++ [.accepted p c]) t := by
  obtain ⟨hp, hconns, htasks⟩ := h.accepted_inv
  have hnot : ¬ ((s.listeners.tasks p).InHand ∨ (s.listeners.tasks p).IsPast) := by
    rw [hp]
    rintro ((h | h) | h | ⟨q, h⟩ | h) <;> cases h
  have hnone : takenOn p as = [] := by
    by_contra hn
    exact hnot (hi.taken p hn)
  refine ⟨h.config.trans hi.config, fun c' hc' => ?_, fun q => ?_, fun q hq => ?_, fun q hq => ?_⟩
  · rcases eq_or_ne c' c with rfl | hne
    · exact ⟨p, by simp [takenOn_accepted]⟩
    · rw [hconns, Function.update_of_ne hne] at hc'
      obtain ⟨q, hq⟩ := hi.owned c' hc'
      exact ⟨q, by rw [takenOn_accepted]; exact List.mem_append_left _ hq⟩
  · rw [takenOn_accepted]
    rcases eq_or_ne q p with rfl | hne
    · simp [hnone]
    · simpa [hne] using hi.one q
  · rw [htasks]
    rcases eq_or_ne q p with rfl | hne
    · rw [if_pos rfl]
      exact .inl (.inl rfl)
    · rw [if_neg hne]
      rw [takenOn_accepted, if_neg hne, List.append_nil] at hq
      exact hi.taken q hq
  · have hne : q ≠ p := by
      rintro rfl
      exact hnot (.inr (hi.absent q hq).2)
    rw [htasks, if_neg hne, takenOn_accepted, if_neg hne, List.append_nil]
    exact hi.absent q hq

theorem Owned.step (hi : Owned cfg as s) (hh : s.Holds) (hmode : cfg.server.runMode = .SingleRequest)
    (h : Step s e t) : Owned cfg (as ++ [e]) t := by
  have hmode' : s.listeners.cfg.server.runMode = .SingleRequest := hi.config ▸ hmode
  by_cases ha : ∃ p c, e = .accepted p c
  · obtain ⟨p, c, rfl⟩ := ha
    exact hi.accepted h
  · have hne : ∀ p c, e ≠ .accepted p c := fun p c he => ha ⟨p, c, he⟩
    have hquiet := h.quiet hmode' hne
    have htaken : ∀ p, takenOn p (as ++ [e]) = takenOn p as := fun p => takenOn_silent p as hne
    refine ⟨h.config.trans hi.config, fun c hc => ?_, fun p => ?_, fun p hp => ?_, fun p hp => ?_⟩
    · obtain ⟨p, hp⟩ := hi.owned c (h.fresh hne hh c hc)
      exact ⟨p, by rwa [htaken]⟩
    · rw [htaken]
      exact hi.one p
    · rw [htaken] at hp
      exact h.taken hmode' (hi.taken p hp)
    · rw [htaken]
      exact ⟨(hi.absent p hp).1, (hquiet p).past (hi.absent p hp).2⟩

theorem owned_of_run (h : Run (Det step) (new cfg memory now) as s)
    (hmode : cfg.server.runMode = .SingleRequest) : Owned cfg as s := by
  have hinv : s.Holds ∧ Owned cfg as s :=
    h.trace_invariant (I := fun as s => s.Holds ∧ Owned cfg as s) ⟨.new, .new⟩
      fun _ _ _ _ ⟨hh, hi⟩ hst => ⟨hh.step (step_cases hst), hi.step hh hmode (step_cases hst)⟩
  exact hinv.2

/-- How many connections the acceptor of the port can give out: one if `init_acceptors` makes it. -/
def capacity (cfg : Config) (p : Port) : Nat := if hasAcceptor cfg p then 1 else 0

theorem Owned.length_takenOn_le (hi : Owned cfg as s) (p : Port) : (takenOn p as).length ≤ capacity cfg p := by
  rw [capacity]
  split
  · exact hi.one p
  · rename_i hno
    rw [(hi.absent p (by simpa using hno)).1]
    exact le_rfl

theorem Owned.length_le (hi : Owned cfg as s) {l : List ConnId} (hn : l.Nodup)
    (hl : ∀ c ∈ l, s.conns c ≠ .fresh) : l.length ≤ capacity cfg .http + capacity cfg .https := by
  have hsub : l ⊆ takenOn .http as ++ takenOn .https as := by
    intro c hc
    obtain ⟨p, hp⟩ := hi.owned c (hl c hc)
    cases p <;> simp [hp]
  have hle := (List.subperm_of_subset hn hsub).length_le
  rw [List.length_append] at hle
  have hhttp := hi.length_takenOn_le .http
  have hhttps := hi.length_takenOn_le .https
  omega

/-- In single-request mode a run of the whole takes at most one connection from each acceptor and none from
elsewhere, and the rate limiter is asked for no more requests than there are acceptors. -/
theorem single_request_limit (h : Run (Det step) (new cfg memory now) as s)
    (hmode : cfg.server.runMode = .SingleRequest) :
    (∀ p, (takenOn p as).length ≤ capacity cfg p) ∧ (∀ c, s.conns c ≠ .fresh → ∃ p, c ∈ takenOn p as) ∧
    s.decisions.length ≤ capacity cfg .http + capacity cfg .https := by
  have hi := owned_of_run h hmode
  have hd := decided_of_run h
  refine ⟨hi.length_takenOn_le, hi.owned, ?_⟩
  rw [← List.length_map (f := Decision.conn)]
  refine hi.length_le hd.nodup fun c hc => ?_
  obtain ⟨d, hm, rfl⟩ := List.mem_map.1 hc
  rcases hd.concluded d hm with hc | ⟨session, hc, -⟩ <;> simp [hc]

/-- Both acceptors give out a connection before the listener of the first one closes them. -/
def bothAccept : List Event :=
  [.listener (.checkShutdown .http), .listener (.startAccept .http), .listener (.checkShutdown .https),
   .listener (.startAccept .https), .accepted .http 0, .listener (.resume .http), .accepted .https 1,
   .dispatch .http ⟨true, true⟩, .listener (.cancelSignals .http), .listener (.uninstall .http),
   .listener (.uninstall .http), .listener (.resume .https), .dispatch .https ⟨true, true⟩]

theorem single_request_limit_both : ∃ s,
    Run (Det step) (new { server := { runMode := .SingleRequest } } (fun _ => []) 0) bothAccept s ∧
    takenOn .http bothAccept = [0] ∧ takenOn .https bothAccept = [1] ∧
    ((s.conns 0).isReady && (s.conns 1).isReady) = true ∧
    (∀ p, (takenOn p bothAccept).length ≤ capacity { server := { runMode := .SingleRequest } } p) ∧
    s.decisions.length ≤ 2 := by
  obtain ⟨s, h, hs⟩ := Lts.exists_run (p := fun s : System => (s.conns 0).isReady && (s.conns 1).isReady)
    (show ((bothAccept.foldlM step
      (new { server := { runMode := .SingleRequest } } (fun _ => []) 0)).any _) = true by decide +kernel)
  obtain ⟨htaken, -, hdecisions⟩ := single_request_limit h rfl
  exact ⟨s, h, rfl, rfl, hs, htaken, hdecisions⟩

end System

end MarketBridge
