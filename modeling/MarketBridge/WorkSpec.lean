import MarketBridge.Lib.Rank
import MarketBridge.ShutdownSpec
import Mathlib.Algebra.Order.BigOperators.Group.List
import Mathlib.Algebra.Order.Group.Nat

/-!
# How much work there is

Every step of the server lowers a rank, except for what comes from outside: an accepted connection, a chunk of
an upstream response, a call of `schedule_shutdown`. So a run is at most as long as these have paid for,
however its steps are interleaved.
-/

namespace MarketBridge

open Lts (Run Det Ranked)

/-! ### The handlers that are left of a session -/

def HeaderTask.rank : HeaderTask → Nat
  | constructed => 22
  | spawned => 21
  | reading .pending => 15
  | reading (.ready _) => 14
  | done => 0

def HeaderTimer.rank : HeaderTimer → Nat
  | armed => 5
  | queued _ => 4
  | idle | done => 0

def TimeoutTask.rank : TimeoutTask → Nat
  | spawned _ => 3
  | writing .pending => 2
  | writing (.ready _) => 1
  | none | done => 0

def ReplyTask.rank : ReplyTask → Nat
  | disallow | health _ => 3
  | writing .pending => 2
  | writing (.ready _) => 1
  | none | done => 0

/-- The steps from the start of the upstream operation to the first read. -/
def UpstreamOp.rank : UpstreamOp → Nat
  | resolve => 11
  | connect => 9
  | handshake => 7
  | write => 5

/-- A read that has delivered a chunk is followed by another one. -/
def OutgoingTask.rank : OutgoingTask → Nat
  | spawned => 13
  | waiting op .pending => op.rank + 1
  | waiting op (.ready _) => op.rank
  | reading .pending => 4
  | reading (.ready (ec, _)) => if ec = .success then 5 else 3
  | relaying .pending => 2
  | relaying (.ready _) => 1
  | none | done | failed => 0

namespace HttpSession

variable {s t : HttpSession} {e : Event}

def rank (s : HttpSession) : Nat :=
  s.header.rank + s.timer.rank + s.timeout.rank + s.reply.rank + s.outgoing.rank + s.stops

/-- What an event from outside the session puts in. -/
def Event.gain : Event → Nat
  | .stop => 2
  | .upstreamRead ec _ => if ec = .success then 2 else 0
  | _ => 0

theorem rank_cancel_le (timer : HeaderTimer) : timer.cancel.rank ≤ timer.rank := by
  cases timer <;> simp [HeaderTimer.cancel, HeaderTimer.rank]

theorem rank_start_le (isOpen : Bool) (r : ErrorCode × Bytes) :
    (HeaderTask.reading (.start isOpen r)).rank ≤ 15 := by
  cases isOpen <;> simp [Await.start, HeaderTask.rank]

theorem rank_clientWrite_le (s : HttpSession) : (TimeoutTask.writing s.clientWrite).rank ≤ 2 ∧
    (ReplyTask.writing s.clientWrite).rank ≤ 2 ∧ (OutgoingTask.relaying s.clientWrite).rank ≤ 2 := by
  unfold clientWrite
  cases s.isOpen <;> simp [Await.start, TimeoutTask.rank, ReplyTask.rank, OutgoingTask.rank]

theorem rank_shutdown_le (s : HttpSession) : s.shutdown.rank ≤ s.rank := by
  have hh : s.header.close.rank ≤ s.header.rank := by
    rcases s.header with _ | _ | (_ | _) | _ <;> simp [HeaderTask.close, Await.close, HeaderTask.rank]
  have ht : s.timeout.close.rank ≤ s.timeout.rank := by
    rcases s.timeout with _ | _ | (_ | _) | _ <;> simp [TimeoutTask.close, Await.close, TimeoutTask.rank]
  have hr : s.reply.close.rank ≤ s.reply.rank := by
    rcases s.reply with _ | _ | _ | (_ | _) | _ <;> simp [ReplyTask.close, Await.close, ReplyTask.rank]
  have ho : s.outgoing.close.rank ≤ s.outgoing.rank := by
    rcases s.outgoing with _ | _ | _ | _ | (_ | _) | _ | _ <;>
      simp [OutgoingTask.close, Await.close, OutgoingTask.rank]
  simp only [rank, shutdown]
  omega

theorem rank_stopHandler_le (s : HttpSession) : s.stopHandler.rank ≤ s.rank := by
  rcases stopHandler_cases s with ⟨-, he⟩ | ⟨-, he⟩ <;> rw [he]
  · exact le_rfl
  · exact rank_shutdown_le (s.requestStop .stop)

theorem Step.lowers (h : Step s e t) : t.rank + 1 ≤ s.rank + e.gain := by
  cases h with
  | start h | headerRead h | startFailed h | headerFailed h =>
    simp only [rank, h, HeaderTask.rank]
    omega
  | stop =>
    simp only [rank, Event.gain]
    omega
  | timerExpires h | timerCancelled h | timerFired h =>
    simp only [rank, h, HeaderTimer.rank, TimeoutTask.rank]
    omega
  | timeoutWritten h | timeoutCancelled h | timeoutLate h =>
    simp only [rank, requestStop, h, TimeoutTask.rank]
    omega
  | replyWritten h | replyDone h =>
    simp only [rank, h, ReplyTask.rank]
    omega
  | relayWritten h | upstreamDone h | sslFailed h | resolve h | connect h | onConnect h | sendRequest h
  | readResponse h | readChunk h =>
    simp only [rank, h, OutgoingTask.rank, UpstreamOp.rank, if_true]
    omega
  | @upstreamFailed step ec h =>
    simp only [rank, h, OutgoingTask.rank]
    cases step <;> simp only [UpstreamOp.rank] <;> omega
  | @upstreamRead ec data h =>
    simp only [rank, h, OutgoingTask.rank, Event.gain]
    split <;> omega
  | readFailed h he =>
    simp only [rank, h, OutgoingTask.rank, if_neg he]
    omega
  | obtainHeader h =>
    have hr := rank_start_le s.isOpen (.badDescriptor, [])
    simp only [rank, h, HeaderTimer.rank]
    have hs : HeaderTask.spawned.rank = 21 := rfl
    omega
  | headerDropped h | disallow h | health h | forward h =>
    have hc := rank_cancel_le s.timer
    simp only [rank, h, HeaderTask.rank, ReplyTask.rank, OutgoingTask.rank]
    omega
  | timeoutFailed h =>
    have he : { s.stopHandler with timeout := .done } = stopHandler { s with timeout := .done } := by
      unfold stopHandler
      split <;> rfl
    rw [he]
    refine (Nat.add_le_add_right (rank_stopHandler_le _) 1).trans ?_
    simp only [rank, h, TimeoutTask.rank]
    omega
  | timeoutReply h =>
    have hw := (rank_clientWrite_le s).1
    have ht : s.timeout.rank = 3 := by rw [h]; rfl
    simp only [rank, respond, requestStop]
    omega
  | timeoutDone h =>
    refine (Nat.add_le_add_right (rank_shutdown_le { s with timeout := .done }) 1).trans ?_
    simp only [rank, h, TimeoutTask.rank]
    omega
  | replyDisallow h | replyHealth h =>
    have hw := (rank_clientWrite_le s).2.1
    have hr : s.reply.rank = 3 := by rw [h]; rfl
    simp only [rank, respond]
    omega
  | @runStop n h =>
    refine (Nat.add_le_add_right (rank_stopHandler_le { s with stops := n }) 1).trans ?_
    simp only [rank, h]
    omega
  | relay h =>
    have hw := (rank_clientWrite_le s).2.2
    have ho : s.outgoing.rank = 3 := by rw [h]; rfl
    simp only [rank, respond]
    omega
  | relayDone h =>
    refine (Nat.add_le_add_right (rank_shutdown_le { s with outgoing := .done }) 1).trans ?_
    simp only [rank, h, OutgoingTask.rank]
    omega

end HttpSession

/-! ### The registrations and the calls of `schedule_shutdown` -/

/-- The steps of a call that collects a list of at most `n` sessions; each `stop` is followed by its handler. -/
def ShutdownCall.rank {ι : Type} (n : Nat) : ShutdownCall ι → Nat
  | called => 1
  | won => 2 * n + 2
  | stopping _ rest => 2 * rest.length + 1
  | returned | finished => 0

theorem ShutdownCall.rank_mono {ι : Type} {n n' : Nat} (h : n ≤ n') (c : ShutdownCall ι) :
    c.rank n ≤ c.rank n' := by
  cases c with
  | won => exact Nat.add_le_add_right (Nat.mul_le_mul_left 2 h) 2
  | _ => exact le_rfl

namespace Registry

variable {ι : Type} {r r' : Registry ι}

/-- What a shutdown will have to do, unless one has begun. -/
def outlook (r : Registry ι) : Nat := if r.shutdownPending then 0 else 2 * r.sessions.length + 2

def callsRank (r : Registry ι) : Nat := (r.calls.map (·.rank r.sessions.length)).sum

/-- A session that has been made is still to be registered and to be destroyed; its registration makes the
next shutdown longer. -/
def rank (r : Registry ι) : Nat :=
  3 * (r.constructed.length - r.results.length) + (r.constructed.length - r.destroyed.length) +
    r.callsRank + r.outlook

/-- What an action takes from the rank. -/
def Action.price : Action ι → Nat
  | construct _ | start _ => 0
  | stopNext _ => 2
  | _ => 1

/-- What an action puts in. -/
def Action.gain : Action ι → Nat
  | construct _ => 4
  | scheduleShutdown => 2
  | _ => 0

theorem callsRank_set {k n p q : Nat} {w : ShutdownCall ι} (w' : ShutdownCall ι) (h : r.calls[k]? = some w)
    (hp : w.rank n = p) (hq : w'.rank n = q) :
    ((r.calls.set k w').map (·.rank n)).sum + p = (r.calls.map (·.rank n)).sum + q :=
  hp ▸ hq ▸ Lts.sum_map_set (f := fun c => c.rank n) w' h

/-- As long as no call has won, the calls do not depend on the list of sessions. -/
theorem callsRank_calm (hc : ∀ c ∈ r.calls, c = .called) (n : Nat) :
    (r.calls.map (·.rank n)).sum = r.calls.length := by
  have hmap : r.calls.map (·.rank n) = r.calls.map fun _ => 1 :=
    List.map_congr_left fun c hc' => by rw [hc c hc']; rfl
  rw [hmap]
  simp

variable [DecidableEq ι] {a : Action ι}

/-- What is listed twice, in order, leaves room for another one. -/
theorem length_lt {α : Type} {l l' : List α} {x : α} (hn : l.Nodup) (hs : ∀ y ∈ l, y ∈ l') (hx : x ∈ l')
    (hxl : x ∉ l) : l.length < l'.length := by
  have hsub : (x :: l).Subperm l' :=
    List.subperm_of_subset (List.nodup_cons.2 ⟨hxl, hn⟩) (by simpa using ⟨hx, hs⟩)
  exact hsub.length_le

/-- Every session is destroyed once. -/
theorem Step.destroyed_nodup (h : Step r a r') (hd : r.destroyed.Nodup) : r'.destroyed.Nodup := by
  cases h with
  | destroy ha => exact nodup_snoc hd (isAlive_iff.1 ha).2
  | _ => exact hd

theorem results_length_lt {i : ι} (hl : r.Listed) (ha : r.isAlive i = true) (hn : i ∉ r.results.map (·.1)) :
    r.results.length < r.constructed.length := by
  have hlt := length_lt hl.once (fun j hj => ?_) (isAlive_iff.1 ha).1 hn
  · simpa using hlt
  · obtain ⟨p, hp, rfl⟩ := List.mem_map.1 hj
    exact hl.constructed p hp

/-- The collecting call goes on with a list that is no longer than the one it has found. -/
theorem collect_rank_le {k : Nat} (h : r.calls[k]? = some .won) : (r.collect k).callsRank + 1 ≤ r.callsRank := by
  have hn : (r.sessions.filter r.isAlive).length ≤ r.sessions.length := List.length_filter_le ..
  have hmono : (r.collect k).callsRank ≤ ((r.collect k).calls.map (·.rank r.sessions.length)).sum :=
    List.sum_le_sum fun c _ => ShutdownCall.rank_mono hn c
  have hc := callsRank_set (n := r.sessions.length) (p := 2 * r.sessions.length + 2)
    (q := 2 * (r.sessions.filter r.isAlive).length + 1)
    (.stopping (r.sessions.filter r.isAlive) (r.sessions.filter r.isAlive)) h rfl rfl
  simp only [collect, callsRank] at hmono ⊢
  omega

theorem Step.lowers (hl : r.Listed) (hs : r.Shutdown) (hd : r.destroyed.Nodup) (h : Step r a r') :
    r'.rank + a.price ≤ r.rank + a.gain := by
  cases h with
  | construct =>
    simp only [rank, callsRank, outlook, Action.price, Action.gain, List.length_append, List.length_singleton]
    omega
  | @register i ha hn hp =>
    have hlt := results_length_lt hl ha hn
    have hcalm : ∀ c ∈ r.calls, c = .called := by
      cases hs with
      | calm _ hc => exact hc
      | pending hp' => simp [hp] at hp'
    simp only [rank, callsRank, outlook, callsRank_calm hcalm, Action.price, Action.gain, hp, List.length_append,
      List.length_singleton, Bool.false_eq_true, if_false]
    omega
  | refuse ha hn =>
    have hlt := results_length_lt hl ha hn
    simp only [rank, callsRank, outlook, Action.price, Action.gain, List.length_append, List.length_singleton]
    omega
  | start => exact le_rfl
  | destroy ha =>
    have hlt := length_lt hd hl.destroyed (isAlive_iff.1 ha).1 (isAlive_iff.1 ha).2
    simp only [rank, callsRank, outlook, Action.price, Action.gain, List.length_append, List.length_singleton]
    omega
  | scheduleShutdown =>
    simp only [rank, callsRank, outlook, Action.price, Action.gain, List.map_append, List.sum_append,
      List.map_singleton, List.sum_singleton, ShutdownCall.rank]
    omega
  | lose h =>
    have hc := callsRank_set (n := r.sessions.length) (p := 1) (q := 0) .returned h rfl rfl
    simp only [rank, callsRank, outlook, Action.price, Action.gain]
    omega
  | win h hp =>
    have hc := callsRank_set (n := r.sessions.length) (p := 1) (q := 2 * r.sessions.length + 2) .won h rfl rfl
    simp only [rank, callsRank, outlook, Action.price, Action.gain, hp, if_true, Bool.false_eq_true, if_false]
    omega
  | @collect k h =>
    have hle := collect_rank_le h
    have hn : (r.collect k).sessions.length ≤ r.sessions.length := List.length_filter_le ..
    have hp : (r.collect k).shutdownPending = r.shutdownPending := rfl
    have ho : (r.collect k).outlook ≤ r.outlook := by
      simp only [outlook, hp]
      split <;> omega
    simp only [rank, Action.price, Action.gain]
    show 3 * (r.constructed.length - r.results.length) + (r.constructed.length - r.destroyed.length) +
      (r.collect k).callsRank + (r.collect k).outlook + 1 ≤ _
    omega
  | @stopNext k active rest i h =>
    have hc := callsRank_set (n := r.sessions.length) (p := 2 * (i :: rest).length + 1)
      (q := 2 * rest.length + 1) (.stopping active rest) h rfl rfl
    rw [List.length_cons] at hc
    simp only [rank, callsRank, outlook, Action.price, Action.gain]
    omega
  | closeAcceptors h =>
    have hc := callsRank_set (n := r.sessions.length) (p := 1) (q := 0) .finished h rfl rfl
    simp only [rank, callsRank, outlook, Action.price, Action.gain]
    omega

end Registry

/-! ### The whole server -/

def HandshakeTask.rank : HandshakeTask → Nat
  | constructed => 32
  | registered => 31
  | spawned => 30
  | handshaking .pending => 29
  | handshaking (.ready _) => 28

def Conn.rank : Conn → Nat
  | accepted _ => 40
  | dispatching => 39
  | sniffing .pending => 38
  | sniffing (.ready _) => 37
  | handshake task => task.rank
  | http session => session.rank + 1
  | fresh | closed => 0

namespace Server

variable {s t : Server} {e : Event} {cs : Finset ConnId}

/-- The rank of a server of which only the connections `cs` have been accepted. -/
def rank (cs : Finset ConnId) (s : Server) : Nat := ∑ c ∈ cs, (s.conns c).rank + s.registry.rank

/-- What comes from outside: a connection, a call of `schedule_shutdown`, a chunk of an upstream response. -/
def Event.gain : Event → Nat
  | .accept .. => 41
  | .scheduleShutdown => 2
  | .session _ e => e.gain
  | _ => 0

/-- Only the connections `cs` are accepted. -/
def Within (cs : Finset ConnId) (_ : Server) (e : Event) : Prop := ∀ c port, e = .accept c port → c ∈ cs

/-- One connection goes on, with a step of the registry. -/
theorem rank_setConn {c : ConnId} {k : Conn} {r : Registry SessionId} {n : Nat} (hc : c ∈ cs)
    (h : k.rank + r.rank + 1 ≤ (s.conns c).rank + s.registry.rank + n) :
    ({ s with registry := r }.setConn c k).rank cs + 1 ≤ s.rank cs + n := by
  have hsum := Lts.sum_off (f := fun c => (s.conns c).rank)
    (g := fun c' => (({ s with registry := r }.setConn c k).conns c').rank) hc fun c' hne => by
      simp only [setConn_conns, if_neg hne]
  simp only [setConn_conns, if_true] at hsum
  simp only [rank, setConn_conns]
  show _ + r.rank + 1 ≤ _
  omega

theorem rank_new_server (cs : Finset ConnId) (cfg : Config) (memory : ConnId → Bytes) :
    (new cfg memory).rank cs = 2 := by
  have hsum : ∑ c ∈ cs, ((new cfg memory).conns c).rank = 0 := Finset.sum_eq_zero fun _ _ => rfl
  rw [rank, hsum]
  rfl

/-- The invariant that the rank needs: no connection outside `cs` has been accepted. -/
structure Counted (cs : Finset ConnId) (s : Server) : Prop where
  registry : s.registry.Inv
  destroyed : s.registry.destroyed.Nodup
  within : ∀ c, c ∉ cs → s.conns c = .fresh

theorem Counted.new {cfg : Config} {memory : ConnId → Bytes} : (Server.new cfg memory).Counted cs :=
  ⟨.new, List.nodup_nil, fun _ _ => rfl⟩

theorem Counted.mem {c : ConnId} {conn : Conn} (hi : s.Counted cs) (h : s.conns c = conn) (hc : conn ≠ .fresh) :
    c ∈ cs :=
  by_contra fun hn => hc (h ▸ hi.within c hn)

theorem Secures.rank_conn {c : ConnId} {ok : Bool} (h : s.Secures c ok e) :
    37 ≤ (s.conns c).rank ∧ s.conns c ≠ .fresh := by
  rcases h with ⟨-, h⟩ | ⟨-, data, h⟩ <;> simp [h, Conn.rank]

theorem Launches.rank_conn {c : ConnId} (h : s.Launches c e) : 28 ≤ (s.conns c).rank ∧ s.conns c ≠ .fresh := by
  rcases h with ⟨-, h, -⟩ | ⟨ok, data, -, h⟩ | ⟨-, h⟩ <;> simp [h, Conn.rank, HandshakeTask.rank]

theorem rank_stopSession_le {i : SessionId} (hi : s.Counted cs) : (s.stopSession i).rank cs ≤ s.rank cs + 1 := by
  unfold stopSession
  split
  · rename_i session h _
    have hr := rank_setConn (s := s) (k := .http { session with stops := session.stops + 1 })
      (r := s.registry) (n := 2) (hi.mem h (by simp)) (by
        simp only [h, Conn.rank, HttpSession.rank]
        omega)
    simpa using hr
  · omega

theorem Step.lowers (hi : s.Counted cs) (hw : s.Within cs e) (h : Step s e t) :
    t.rank cs + 1 ≤ s.rank cs + e.gain := by
  have hreg : ∀ {a : Registry.Action SessionId} {r : Registry SessionId}, Registry.Step s.registry a r →
      r.rank + a.price ≤ s.registry.rank + a.gain :=
    fun hr => hr.lowers hi.registry.listed hi.registry.shutdown hi.destroyed
  cases h with
  | @accept c port h =>
    refine rank_setConn (r := s.registry) (hw c port rfl) ?_
    simp only [h, Conn.rank, Event.gain]
    omega
  | dispatch h | sniff h | peeked h | sniffFailed h | handshake h | handshaken h | handshakeFailed h | finish h =>
    refine rank_setConn (r := s.registry) (hi.mem h (by simp)) ?_
    simp only [h, Conn.rank, HandshakeTask.rank]
    omega
  | noContext h =>
    obtain ⟨hc, hf⟩ := h.rank_conn
    refine rank_setConn (r := s.registry) (hi.mem rfl hf) ?_
    show 0 + s.registry.rank + 1 ≤ _
    omega
  | secure h hr =>
    obtain ⟨hc, hf⟩ := h.rank_conn
    have hr := hreg hr
    refine rank_setConn (hi.mem rfl hf) ?_
    simp only [Registry.Action.price, Registry.Action.gain] at hr
    show 32 + _ + 1 ≤ _
    omega
  | launch h hr =>
    obtain ⟨hc, hf⟩ := h.rank_conn
    have hr := hreg hr
    refine rank_setConn (hi.mem rfl hf) ?_
    simp only [Registry.Action.price, Registry.Action.gain] at hr
    show 23 + _ + 1 ≤ _
    omega
  | registerHandshake h hr =>
    have hr := hreg hr
    refine rank_setConn (hi.mem h (by simp)) ?_
    simp only [Registry.Action.price, Registry.Action.gain] at hr
    split <;> simp only [h, Conn.rank, HandshakeTask.rank] <;> omega
  | registerHttp h hh hr =>
    have hr := hreg hr
    refine rank_setConn (hi.mem h (by simp)) ?_
    simp only [Registry.Action.price, Registry.Action.gain] at hr
    split <;> simp only [h, Conn.rank] <;> omega
  | startHandshake h hr =>
    have hr := hreg hr
    refine rank_setConn (hi.mem h (by simp)) ?_
    simp only [h, Conn.rank, HandshakeTask.rank]
    simp only [Registry.Action.price, Registry.Action.gain] at hr
    omega
  | startHttp h hs hr =>
    have hr := hreg hr
    have hs := hs.lowers
    refine rank_setConn (hi.mem h (by simp)) ?_
    simp only [h, Conn.rank]
    simp only [Registry.Action.price, Registry.Action.gain] at hr
    simp only [HttpSession.Event.gain] at hs
    omega
  | session h _ _ hs =>
    have hs := hs.lowers
    refine rank_setConn (r := s.registry) (hi.mem h (by simp)) ?_
    simp only [h, Conn.rank, Event.gain]
    omega
  | destroy hu hr =>
    have hr := hreg hr
    simp only [Registry.Action.price, Registry.Action.gain] at hr
    simp only [rank, Event.gain]
    omega
  | @shutdown e a r he hr =>
    have hr := hreg hr
    cases e <;> simp only [Event.shutdownAction, Option.some.injEq, reduceCtorEq] at he
    all_goals
      subst he
      simp only [Registry.Action.price, Registry.Action.gain] at hr
      simp only [rank, Event.gain]
      omega
  | @stopNext k active rest i r hk hr =>
    have hr' := hreg hr
    have hle := rank_stopSession_le (s := { s with registry := r }) (i := i)
      ⟨hi.registry.step hr, hr.destroyed_nodup hi.destroyed, hi.within⟩
    simp only [Registry.Action.price, Registry.Action.gain] at hr'
    refine (Nat.add_le_add_right hle 1).trans ?_
    simp only [rank, Event.gain]
    omega

theorem stopSession_fresh {i : SessionId} {c : ConnId} (h : s.conns c = .fresh) :
    (s.stopSession i).conns c = .fresh := by
  unfold stopSession
  split
  · rename_i session hi _
    rw [setConn_conns, if_neg]
    · exact h
    · rintro rfl
      simp [h] at hi
  · exact h

/-- The events of a connection do not reach the other ones. -/
theorem Step.fresh {c : ConnId} (h : Step s e t) (hc : s.conns c = .fresh) (he : ∀ port, e ≠ .accept c port) :
    t.conns c = .fresh := by
  have hset : ∀ {c' : ConnId} {conn : Conn} {r : Registry SessionId}, c' ≠ c →
      ({ s with registry := r }.setConn c' conn).conns c = .fresh := by
    intro c' conn r hne
    rw [setConn_conns, if_neg (Ne.symm hne)]
    exact hc
  have hne : ∀ {c' : ConnId} {conn : Conn}, s.conns c' = conn → conn ≠ .fresh → c' ≠ c := by
    rintro c' conn h hn rfl
    exact hn (h ▸ hc)
  cases h with
  | @accept c' port h => exact hset (r := s.registry) fun hcc => he port (hcc ▸ rfl)
  | dispatch h | sniff h | peeked h | sniffFailed h | handshake h | handshaken h | handshakeFailed h | finish h
  | session h => exact hset (r := s.registry) (hne h (by simp))
  | noContext h => exact hset (r := s.registry) (hne rfl h.rank_conn.2)
  | secure h => exact hset (hne rfl h.rank_conn.2)
  | launch h => exact hset (hne rfl h.rank_conn.2)
  | registerHandshake h | registerHttp h | startHandshake h | startHttp h => exact hset (hne h (by simp))
  | destroy | shutdown => exact hc
  | stopNext => exact stopSession_fresh hc

theorem Step.registry (h : Step s e t) : t.registry = s.registry ∨ ∃ a, Registry.Step s.registry a t.registry := by
  cases h with
  | secure _ hr | launch _ hr | registerHandshake _ hr | registerHttp _ _ hr | startHandshake _ hr
  | startHttp _ _ hr | destroy _ hr | shutdown _ hr => exact .inr ⟨_, hr⟩
  | @stopNext k active rest i r hk hr =>
    refine .inr ⟨.stopNext k, ?_⟩
    rw [stopSession_registry]
    exact hr
  | _ => exact .inl rfl

theorem Counted.step (hi : s.Counted cs) (hw : s.Within cs e) (h : Step s e t) : t.Counted cs := by
  have hf : ∀ c, c ∉ cs → t.conns c = .fresh := fun c hc =>
    h.fresh (hi.within c hc) fun port he => hc (hw c port he)
  rcases h.registry with hr | ⟨a, hr⟩
  · exact ⟨hr ▸ hi.registry, hr ▸ hi.destroyed, hf⟩
  · exact ⟨hi.registry.step hr, hr.destroyed_nodup hi.destroyed, hf⟩

theorem ranked (cs : Finset ConnId) :
    Ranked (Lts.Guarded (Within cs) (Det step)) (Counted cs) (rank cs) Event.gain where
  kept _ _ _ hi := fun ⟨hw, h⟩ => hi.step hw (step_cases h)
  lowers _ _ _ hi := fun ⟨hw, h⟩ => (step_cases h).lowers hi hw

end Server

end MarketBridge
