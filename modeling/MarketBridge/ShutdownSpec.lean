import MarketBridge.ServerStep
import MarketBridge.StopSpec

/-!
# What a shutdown releases

`stop` reaches a registered `HTTPSession`, and there the client socket only. So a shutdown leaves nothing
pending when, at the compare-exchange, no connection has an operation that no `stop` reaches (a peek, a TLS
handshake, an upstream step, the write of the timeout response), and none is started while the shutdown is
pending.
-/

namespace MarketBridge

/-- An operation that no `stop` reaches is pending. -/
def Conn.Unstoppable : Conn → Prop
  | sniffing op => op.isPending = true
  | handshake (.handshaking op) => op.isPending = true
  | http session => session.Unstoppable
  | _ => False

namespace Server

open Lts (Run Det Guarded)

variable {s t : Server} {e : Event} {as : List Event} {cfg : Config} {memory : ConnId → Bytes}

/-- The event starts such an operation. -/
def startsUnstoppable (s : Server) : Event → Bool
  | .runDispatch c =>
    match s.conns c with
    | .dispatching => s.cfg.server.allowHttpsOverHttpPort
    | _ => false
  | .runHandshake c =>
    match s.conns c with
    | .handshake .spawned => true
    | _ => false
  | .session c e =>
    match s.conns c with
    | .http session => session.startsUnstoppable e
    | _ => false
  | _ => false

/-- The event is the compare-exchange that wins. -/
def winsShutdown (s : Server) : Event → Bool
  | .compareExchange _ => !s.registry.shutdownPending
  | _ => false

/-- No operation that no `stop` reaches is pending when the shutdown begins, and none is started while it is
pending. -/
def Stoppable (s : Server) (e : Event) : Prop :=
  (s.winsShutdown e = true → ∀ c, ¬ (s.conns c).Unstoppable) ∧
  (s.registry.shutdownPending = true → s.startsUnstoppable e = false)

/-- A call of `schedule_shutdown` has stopped its sessions and closed the acceptors. -/
def ShutdownFinished (s : Server) : Prop := ∃ k : Nat, s.registry.calls[k]? = some .finished

/-! ### The sessions of the connections -/

/-- The session that a connection has reached: it is registered before it starts, and a `stop` that has been
called has been handled or is queued. -/
structure Serves (r : Registry SessionId) (c : ConnId) (session : HttpSession) : Prop where
  exclusive : session.Exclusive
  sound : session.Sound
  alive : r.isAlive ⟨c, .http⟩ = true
  registered : session.header ≠ .constructed → (⟨c, .http⟩, true) ∈ r.results
  stopped : ⟨c, .http⟩ ∈ r.stops → session.stops ≠ 0 ∨ session.stopped = true

structure Inv (s : Server) : Prop where
  registry : s.registry.Inv
  serves : ∀ c session, s.conns c = .http session → Serves s.registry c session

theorem Inv.new : (new cfg memory).Inv := ⟨.new, fun c session h => by simp [Server.new] at h⟩

theorem Serves.registry {r r' : Registry SessionId} {a : Registry.Action SessionId} {c : ConnId}
    {session : HttpSession} (hi : Serves r c session) (h : Registry.Step r a r')
    (ha : a ≠ .destroy ⟨c, .http⟩) (hs : ⟨c, .http⟩ ∈ r'.stops → ⟨c, .http⟩ ∈ r.stops) :
    Serves r' c session :=
  ⟨hi.exclusive, hi.sound, h.isAlive ha hi.alive, fun hh => h.results (hi.registered hh),
    fun hm => hi.stopped (hs hm)⟩

theorem Inv.serves_of_act {r : Registry SessionId} {a : Registry.Action SessionId} (hi : s.Inv)
    (h : Registry.Step s.registry a r) (ha : ∀ c session, s.conns c = .http session → a ≠ .destroy ⟨c, .http⟩)
    (hs : ∀ k, a ≠ .stopNext k) (c : ConnId) (session : HttpSession) (hc : s.conns c = .http session) :
    Serves r c session :=
  (hi.serves c session hc).registry h (ha c session hc) fun hm => h.stops hs ▸ hm

theorem serves_setConn {r : Registry SessionId} {c : ConnId} {conn : Conn}
    (hs : ∀ c session, s.conns c = .http session → Serves r c session)
    (hc : ∀ session, conn = .http session → Serves r c session) (c' : ConnId) (session : HttpSession)
    (h : (s.setConn c conn).conns c' = .http session) : Serves r c' session := by
  rw [setConn_conns] at h
  split at h
  · subst c'
    exact hc session h
  · exact hs c' session h

theorem Serves.step {r : Registry SessionId} {c : ConnId} {session session' : HttpSession}
    {e : HttpSession.Event} (hi : Serves r c session) (h : session.Step e session')
    (hr : session'.header ≠ .constructed → (⟨c, .http⟩, true) ∈ r.results) : Serves r c session' :=
  ⟨hi.exclusive.step h, hi.sound.step h, hi.alive, hr, fun hm => h.stop_kept (hi.stopped hm)⟩

theorem Serves.new {r : Registry SessionId} {c : ConnId} (hr : s.registry.Inv)
    (h : Registry.Step s.registry (.construct ⟨c, .http⟩) r) (upstreamInfo : UpstreamInfo) (memory : Bytes) :
    Serves r c (.new upstreamInfo memory) := by
  cases h with
  | construct hn =>
    refine ⟨.new, .new upstreamInfo memory, Registry.isAlive_iff.2 ⟨by simp, fun hd => ?_⟩,
      by simp [HttpSession.new], fun hm => ?_⟩
    · exact hn (hr.listed.destroyed _ hd)
    · exact absurd (hr.drained.constructed _ (.inl hm)) hn

theorem stopSession_registry (s : Server) (i : SessionId) : (s.stopSession i).registry = s.registry := by
  unfold stopSession
  split <;> rfl

/-- The session that the loop has come to gets its `stop`, the others stay as they are. -/
theorem Inv.stopNext {k : Nat} {active rest : List SessionId} {i : SessionId} {r : Registry SessionId}
    (hi : s.Inv) (hk : s.registry.calls[k]? = some (.stopping active (i :: rest)))
    (hr : Registry.Step s.registry (.stopNext k) r) : ({ s with registry := r }.stopSession i).Inv := by
  have hstops : r.stops = s.registry.stops ++ [i] := by
    cases hr with
    | stopNext h =>
      obtain ⟨-, rfl, -⟩ : _ ∧ _ ∧ _ := by simpa [hk] using h
      rfl
  have hother : ∀ c session, s.conns c = .http session → (⟨c, .http⟩ : SessionId) ≠ i →
      Serves r c session := by
    intro c session hc hne
    refine (hi.serves c session hc).registry hr (by simp) fun hm => ?_
    rw [hstops] at hm
    exact (List.mem_append.1 hm).resolve_right fun hm => hne (List.mem_singleton.1 hm)
  refine ⟨stopSession_registry { s with registry := r } i ▸ hi.registry.step hr, fun c session hc => ?_⟩
  rw [stopSession_registry]
  obtain ⟨c', kind⟩ := i
  unfold stopSession at hc
  split at hc
  · rename_i session' h' hkind
    obtain rfl : kind = .http := hkind
    rw [setConn_conns] at hc
    split at hc
    · rename_i hcc
      obtain rfl : c = c' := hcc
      obtain rfl := Conn.http.inj hc
      obtain ⟨hx, hs, ha, hreg, -⟩ := hi.serves c session' h'
      exact ⟨hx.step .stop, hs.step .stop, hr.isAlive (by simp) ha, fun hh => hr.results (hreg hh),
        fun _ => .inl (by simp)⟩
    · rename_i hne
      exact hother c session hc fun he => hne (congrArg SessionId.conn he)
  · rename_i hno
    exact hother c session hc fun he => by
      obtain ⟨rfl, rfl⟩ := SessionId.mk.inj he
      exact hno session hc rfl

theorem Inv.step (hi : s.Inv) (h : Step s e t) : t.Inv := by
  cases h with
  | accept | dispatch | sniff | peeked | sniffFailed | noContext | handshake | handshaken | handshakeFailed
  | finish => exact ⟨hi.registry, serves_setConn hi.serves (by simp)⟩
  | secure h hr =>
    exact ⟨hi.registry.step hr, serves_setConn (hi.serves_of_act hr (by simp) (by simp)) (by simp)⟩
  | launch h hr =>
    have hs := hi.serves_of_act hr (by simp) (by simp)
    refine ⟨hi.registry.step hr, serves_setConn hs fun session hc => ?_⟩
    obtain rfl := Conn.http.inj hc
    exact .new hi.registry hr _ _
  | registerHandshake h hr =>
    have hs := hi.serves_of_act hr (by simp) (by simp)
    refine ⟨hi.registry.step hr, serves_setConn hs fun session hc => ?_⟩
    split at hc <;> simp at hc
  | @registerHttp c session r h hh hr =>
    have hs := hi.serves_of_act hr (by simp) (by simp)
    refine ⟨hi.registry.step hr, serves_setConn hs fun session' hc => ?_⟩
    split at hc
    · simp at hc
    · obtain rfl := Conn.http.inj hc
      exact hs c session h
  | startHandshake h hr =>
    exact ⟨hi.registry.step hr, serves_setConn (hi.serves_of_act hr (by simp) (by simp)) (by simp)⟩
  | @startHttp c session session' r h hs hr =>
    have hi' := hi.serves_of_act hr (by simp) (by simp)
    refine ⟨hi.registry.step hr, serves_setConn hi' fun _ hc => ?_⟩
    obtain rfl := Conn.http.inj hc
    cases hr with
    | start hm => exact (hi' c session h).step hs fun _ => hm
  | @session c e session session' h he he' hs =>
    refine ⟨hi.registry, serves_setConn hi.serves fun _ hc => ?_⟩
    obtain rfl := Conn.http.inj hc
    have hi' := hi.serves c session h
    exact hi'.step hs fun hn => hi'.registered fun hh => hn (hs.constructed he hh)
  | @destroy i r hu hr =>
    refine ⟨hi.registry.step hr, hi.serves_of_act hr (fun c session hc hd => ?_) (by simp)⟩
    obtain rfl := Registry.Action.destroy.inj hd
    simp [hc, Conn.uses] at hu
  | @shutdown e a r he hr =>
    have ha : (∀ i, a ≠ .destroy i) ∧ ∀ k, a ≠ .stopNext k := by
      cases e <;> simp only [Event.shutdownAction, Option.some.injEq, reduceCtorEq] at he
      all_goals subst he; simp
    exact ⟨hi.registry.step hr, hi.serves_of_act hr (fun _ _ _ => ha.1 _) ha.2⟩
  | stopNext hk hr => exact hi.stopNext hk hr

theorem inv_of_run (h : Run (Det step) (new cfg memory) as s) : s.Inv :=
  h.invariant (fun _ _ _ hi h => hi.step (step_cases h)) .new

/-! ### No such operation while the shutdown is pending -/

theorem Step.pending (h : Step s e t) (ht : t.registry.shutdownPending = true) :
    s.registry.shutdownPending = true ∨ s.winsShutdown e = true := by
  cases h with
  | secure _ hr | launch _ hr | registerHandshake _ hr | registerHttp _ _ hr | startHandshake _ hr
  | startHttp _ _ hr | destroy _ hr => exact .inl (hr.pending (by simp) ht)
  | stopNext hk hr => exact .inl (hr.pending (by simp) (by rwa [stopSession_registry] at ht))
  | @shutdown e a r he hr =>
    cases e with
    | compareExchange k =>
      cases hp : s.registry.shutdownPending with
      | true => exact .inl rfl
      | false => exact .inr (by simp [winsShutdown, hp])
    | scheduleShutdown | collect | closeAcceptors =>
      obtain rfl := Option.some.inj he
      exact .inl (hr.pending (by simp) ht)
    | _ => simp [Event.shutdownAction] at he
  | _ => exact .inl ht

theorem setConn_not_unstoppable {c : ConnId} {conn : Conn} (hu : ∀ c, ¬ (s.conns c).Unstoppable)
    (hc : ¬ conn.Unstoppable) (c' : ConnId) : ¬ ((s.setConn c conn).conns c').Unstoppable := by
  rw [setConn_conns]
  split
  · exact hc
  · exact hu c'

theorem not_unstoppable_of_eq {c : ConnId} {session : HttpSession} (hu : ∀ c, ¬ (s.conns c).Unstoppable)
    (h : s.conns c = .http session) : ¬ session.Unstoppable := by
  simpa [h, Conn.Unstoppable] using hu c

/-- Only the events that `startsUnstoppable` lists start an operation that no `stop` reaches. -/
theorem Step.not_unstoppable (hi : s.Inv) (h : Step s e t) (hu : ∀ c, ¬ (s.conns c).Unstoppable)
    (hs : s.startsUnstoppable e = false) : ∀ c, ¬ (t.conns c).Unstoppable := by
  cases h with
  | accept | dispatch | sniffFailed | noContext | handshakeFailed | finish | secure | startHandshake =>
    exact setConn_not_unstoppable hu (by simp [Conn.Unstoppable])
  | peeked | handshaken => exact setConn_not_unstoppable hu (by simp [Conn.Unstoppable, Await.isPending])
  | sniff h ha => simp [startsUnstoppable, h, ha] at hs
  | handshake h => simp [startsUnstoppable, h] at hs
  | launch =>
    refine setConn_not_unstoppable hu ?_
    simp [Conn.Unstoppable, HttpSession.Unstoppable, HttpSession.new, OutgoingTask.isPending]
  | registerHandshake =>
    refine setConn_not_unstoppable hu ?_
    split <;> simp [Conn.Unstoppable]
  | registerHttp h =>
    refine setConn_not_unstoppable hu ?_
    split
    · simp [Conn.Unstoppable]
    · exact not_unstoppable_of_eq hu h
  | @startHttp c session session' r h hs' =>
    have hx := (hi.serves c session h).exclusive
    exact setConn_not_unstoppable hu (hs'.not_unstoppable hx (not_unstoppable_of_eq hu h) rfl)
  | @session c e session session' h _ _ hs' =>
    have hx := (hi.serves c session h).exclusive
    exact setConn_not_unstoppable hu
      (hs'.not_unstoppable hx (not_unstoppable_of_eq hu h) (by simpa [startsUnstoppable, h] using hs))
  | destroy | shutdown => exact hu
  | stopNext =>
    unfold stopSession
    split
    · rename_i session h _
      have hs' : ¬ session.Unstoppable := not_unstoppable_of_eq hu h
      exact setConn_not_unstoppable hu hs'
    · exact hu

/-- While the shutdown is pending, `stop` reaches every operation that is pending. -/
structure Released (s : Server) : Prop where
  inv : s.Inv
  stoppable : s.registry.shutdownPending = true → ∀ c, ¬ (s.conns c).Unstoppable

theorem Released.new : (new cfg memory).Released := ⟨.new, fun h => by simp [Server.new] at h⟩

theorem Released.step (hi : s.Released) (hg : s.Stoppable e) (h : Step s e t) : t.Released := by
  refine ⟨hi.inv.step h, fun ht => ?_⟩
  rcases h.pending ht with hp | hw
  · exact h.not_unstoppable hi.inv (hi.stoppable hp) (hg.2 hp)
  · refine h.not_unstoppable hi.inv (hg.1 hw) ?_
    cases e <;> simp_all [winsShutdown, startsUnstoppable]

theorem released_of_run (h : Run (Guarded Stoppable (Det step)) (new cfg memory) as s) : s.Released :=
  h.invariant (fun _ _ _ hi ⟨hg, h⟩ => hi.step hg (step_cases h)) .new

/-! ### Such an operation lasts as long as its peer is silent -/

def Event.byPeer : Event → Bool
  | .peeked .. | .handshaken .. => true
  | .session _ e => e.byPeer
  | _ => false

theorem Secures.not_unstoppable {c : ConnId} {sslContextOk : Bool} (h : s.Secures c sslContextOk e) :
    ¬ (s.conns c).Unstoppable := by
  rcases h with ⟨-, h⟩ | ⟨-, data, h⟩ <;> simp [h, Conn.Unstoppable, Await.isPending]

theorem Launches.not_unstoppable {c : ConnId} (h : s.Launches c e) : ¬ (s.conns c).Unstoppable := by
  rcases h with ⟨-, h, -⟩ | ⟨ok, data, -, h⟩ | ⟨-, h⟩ <;> simp [h, Conn.Unstoppable, Await.isPending]

theorem unstoppable_setConn {c c' : ConnId} {conn : Conn} (hu : (s.conns c').Unstoppable)
    (hc : (s.conns c).Unstoppable → conn.Unstoppable) : ((s.setConn c conn).conns c').Unstoppable := by
  rw [setConn_conns]
  split
  · subst c'
    exact hc hu
  · exact hu

theorem Step.unstoppable {c : ConnId} (hi : s.Inv) (h : Step s e t) (he : e.byPeer = false)
    (hu : (s.conns c).Unstoppable) : (t.conns c).Unstoppable := by
  cases h with
  | peeked | handshaken => simp [Event.byPeer] at he
  | noContext h | secure h => exact unstoppable_setConn hu (absurd · h.not_unstoppable)
  | launch h => exact unstoppable_setConn hu (absurd · h.not_unstoppable)
  | accept h | dispatch h | sniff h | sniffFailed h | registerHandshake h | startHandshake h | handshake h
  | handshakeFailed h =>
    exact unstoppable_setConn hu fun hc => by simp [h, Conn.Unstoppable, Await.isPending] at hc
  | @registerHttp c' session r h hh =>
    have hs := hi.serves c' session h
    have hn := HttpSession.not_unstoppable_of_constructed hs.sound hs.exclusive hh
    exact unstoppable_setConn hu fun hc => absurd (by simpa [h, Conn.Unstoppable] using hc) hn
  | @startHttp c' session session' r h hs' =>
    have hs := hi.serves c' session h
    refine unstoppable_setConn hu fun hc => hs'.unstoppable hs.sound hs.exclusive rfl ?_
    simpa [h, Conn.Unstoppable] using hc
  | @session c' e session session' h _ _ hs' =>
    have hs := hi.serves c' session h
    refine unstoppable_setConn hu fun hc => hs'.unstoppable hs.sound hs.exclusive he ?_
    simpa [h, Conn.Unstoppable] using hc
  | finish h hp =>
    refine unstoppable_setConn hu fun hc => ?_
    rw [h] at hc
    simp [HttpSession.isPending_of_unstoppable hc] at hp
  | destroy | shutdown => exact hu
  | stopNext =>
    unfold stopSession
    split
    · rename_i session h _
      refine unstoppable_setConn hu fun hc => ?_
      rw [h] at hc
      exact hc
    · exact hu

theorem isPending_of_unstoppable {conn : Conn} (h : conn.Unstoppable) : conn.isPending = true := by
  cases conn with
  | sniffing => exact h
  | handshake task => cases task <;> first | exact h | exact h.elim
  | http session => exact session.isPending_of_unstoppable h
  | _ => exact h.elim

theorem Step.starts (h : Step s e t) (hs : s.startsUnstoppable e = true) : ∃ c, (t.conns c).Unstoppable := by
  cases h with
  | @sniff c | @handshake c => exact ⟨c, by simp [setConn_conns, Conn.Unstoppable, Await.isPending]⟩
  | @session c e session session' h _ _ hs' =>
    refine ⟨c, ?_⟩
    rw [setConn_conns, if_pos rfl]
    exact hs'.starts (by simpa [startsUnstoppable, h] using hs)
  | @launch c e r h =>
    rcases h with ⟨rfl, h, ha⟩ | ⟨ok, data, rfl, h⟩ | ⟨rfl, h⟩ <;> simp_all [startsUnstoppable]
  | noContext h | secure h => rcases h with ⟨rfl, h⟩ | ⟨rfl, data, h⟩ <;> simp [startsUnstoppable] at hs
  | handshakeFailed h => simp [startsUnstoppable, h] at hs
  | @shutdown e a r he => cases e <;> simp_all [startsUnstoppable, Event.shutdownAction]
  | _ => simp [startsUnstoppable] at hs

/-- After a step that does not meet the condition an operation stays pending for as long as its peers are
silent, whatever `schedule_shutdown` does. -/
theorem pending_of_not_stoppable {u : Server} {bs : List Event} (h : Run (Det step) (new cfg memory) as s)
    (hst : s.step e = some t) (hg : ¬ s.Stoppable e)
    (hr : Run (Guarded (fun _ e => e.byPeer = false) (Det step)) t bs u) :
    ∃ c, (u.conns c).isPending = true := by
  have hi := inv_of_run h
  have hst := step_cases hst
  have ht : ∃ c, (t.conns c).Unstoppable := by
    by_cases hs : s.startsUnstoppable e = true
    · exact hst.starts hs
    · have hn : ¬ (s.winsShutdown e = true → ∀ c, ¬ (s.conns c).Unstoppable) := fun hw =>
        hg ⟨hw, fun _ => Bool.eq_false_iff.2 hs⟩
      obtain ⟨hw, hn⟩ := Classical.not_imp.1 hn
      obtain ⟨c, hu⟩ := not_forall_not.1 hn
      have he : e.byPeer = false := by cases e <;> first | rfl | simp [winsShutdown] at hw
      exact ⟨c, hst.unstoppable hi he hu⟩
  obtain ⟨c, hu⟩ := ht
  have hI := hr.invariant (I := fun s => s.Inv ∧ (s.conns c).Unstoppable)
    (fun _ _ _ ⟨hi, hu⟩ ⟨he, h⟩ => ⟨hi.step (step_cases h), (step_cases h).unstoppable hi he hu⟩)
    ⟨hi.step hst, hu⟩
  exact ⟨c, isPending_of_unstoppable hI.2⟩

/-! ### Once the handlers have run -/

/-- When a call of `schedule_shutdown` has finished and no handler of the session is ready, the session has
handled its `stop`. -/
theorem Inv.stopped {c : ConnId} {session : HttpSession} (hi : s.Inv) (hf : s.ShutdownFinished)
    (hc : s.conns c = .http session) (hr : (s.conns c).isReady = false) : session.stopped = true := by
  have hs := hi.serves c session hc
  obtain ⟨hh, hr⟩ : session.header ≠ .constructed ∧ session.isReady = false := by
    simpa [hc, Conn.isReady] using hr
  obtain ⟨k, hk⟩ := hf
  have hdue := hi.registry.drained.due ⟨k, _, hk, rfl⟩ ⟨c, .http⟩ (hs.registered hh) hs.alive
  have hone := hdue.stopped hi.registry.shutdown hk
  have hmem : (⟨c, .http⟩ : SessionId) ∈ s.registry.stops := List.count_pos_iff.1 (by omega)
  refine (hs.stopped hmem).resolve_left fun hn => ?_
  simp [HttpSession.isReady, hn] at hr

/-- When a call of `schedule_shutdown` has finished and all handlers have run, no socket operation is
pending, given that no step of the run was about an operation that no `stop` reaches. -/
theorem shutdown_releases (h : Run (Guarded Stoppable (Det step)) (new cfg memory) as s)
    (hf : s.ShutdownFinished) (hr : ∀ c, (s.conns c).isReady = false) (c : ConnId) :
    (s.conns c).isPending = false := by
  obtain ⟨hi, hu⟩ := released_of_run h
  obtain ⟨k, hk⟩ := hf
  replace hu := hu (hi.registry.shutdown.pending_of_hasCollected hk rfl) c
  cases hc : s.conns c with
  | http session =>
    have hrs : session.isReady = false := by
      have := hr c
      simp only [hc, Conn.isReady, Bool.or_eq_false_iff] at this
      exact this.2
    have hus : ¬ session.Unstoppable := by simpa [hc, Conn.Unstoppable] using hu
    exact (hi.serves c session hc).sound.not_pending (hi.stopped ⟨k, hk⟩ hc (hr c)) hrs hus
  | sniffing op =>
    rw [hc] at hu
    exact Bool.eq_false_iff.2 hu
  | handshake task =>
    rw [hc] at hu
    cases task with
    | handshaking op => exact Bool.eq_false_iff.2 hu
    | _ => rfl
  | _ => rfl

/-- A step other than the compare-exchange that wins, checked. -/
def checkedStep (s : Server) (e : Event) : Option Server :=
  if s.winsShutdown e || s.registry.shutdownPending && s.startsUnstoppable e then none else s.step e

theorem run_of_checked (h : as.foldlM checkedStep s = some t) :
    Run (Guarded Stoppable (Det step)) s as t := by
  refine (Lts.run_det_iff.2 h).mono fun s e t h => ?_
  obtain ⟨⟨hw, hs⟩, hst⟩ : (s.winsShutdown e = false ∧
      (s.registry.shutdownPending = true → s.startsUnstoppable e = false)) ∧ s.step e = some t := by
    simpa [Det, checkedStep] using h
  exact ⟨⟨by simp [hw], hs⟩, hst⟩

theorem run_of_compareExchange {u : Server} {k : Nat} (hu : ∀ c, ¬ (s.conns c).Unstoppable)
    (h : s.step (.compareExchange k) = some t) (hr : as.foldlM checkedStep t = some u) :
    Run (Guarded Stoppable (Det step)) s (.compareExchange k :: as) u :=
  .cons ⟨⟨fun _ => hu, fun _ => rfl⟩, h⟩ (run_of_checked hr)

def connected : List Event :=
  [.accept 0 .http, .runListener 0 true, .runDispatch 0, .registerSession ⟨0, .http⟩,
   .startSession ⟨0, .http⟩, .session 0 (.runStart true), .scheduleShutdown]

def stoppedRun : List Event :=
  [.collect 0, .stopNext 0, .closeAcceptors 0, .session 0 .runStop, .session 0 (.runHeader true)]

/-- A connection is being sniffed when the shutdown begins. -/
def sniffedRun : List Event :=
  [.accept 0 .http, .runListener 0 true, .runDispatch 0, .scheduleShutdown, .compareExchange 0, .collect 0,
   .closeAcceptors 0]

def sniffingConfig : Config := { server := { allowHttpsOverHttpPort := true } }

theorem sniffedRun_pending : ∃ s,
    Run (Det step) (new sniffingConfig fun _ => []) sniffedRun s ∧ s.ShutdownFinished ∧
    (∀ c, (s.conns c).isReady = false) ∧ (s.conns 0).isPending = true := by
  refine ⟨_, Lts.run_det_iff.2 rfl, ⟨0, rfl⟩, fun c => ?_, rfl⟩
  cases c with
  | zero => rfl
  | succ c => rfl

theorem shutdown_releases_reading : ∃ s,
    Run (Guarded Stoppable (Det step)) (new {} fun _ => [])
      (connected ++ .compareExchange 0 :: stoppedRun) s ∧
    (s.conns 0).isPending = false := by
  have hrun : ∃ s, Run (Guarded Stoppable (Det step)) (new {} fun _ => [])
      (connected ++ .compareExchange 0 :: stoppedRun) s ∧ s.ShutdownFinished ∧
      (∀ c, (s.conns c).isReady = false) := by
    refine ⟨_, (run_of_checked rfl).append (run_of_compareExchange (fun c => ?_) rfl rfl), ⟨0, rfl⟩,
      fun c => ?_⟩
    · cases c with
      | zero => rintro (h | ⟨h, -⟩) <;> cases h
      | succ c => exact id
    · cases c with
      | zero => rfl
      | succ c => rfl
  obtain ⟨s, h, hf, hr⟩ := hrun
  exact ⟨s, h, shutdown_releases h hf hr 0⟩

end Server

end MarketBridge
