import MarketBridge.ContextSpec

/-!
# Who talks in plain text

A connection gets its HTTP session behind a TLS handshake or without one. Which of the two it is depends on
its history alone: the listener that accepted it and, where the HTTP port takes TLS clients too, the bytes that
the peek has delivered.
-/

namespace MarketBridge

open Lts (Run Det)

namespace Server

variable {s t : Server} {e : Event} {as : List Event} {cfg : Config} {memory : ConnId → Bytes} {c : ConnId}
  {conn : Conn} {allow : Bool}

/-- The connection of which the event decides something for the route. -/
def Event.marks : Event → Option ConnId
  | .accept c _ => some c
  | .peeked c _ _ => some c
  | .handshaken c _ => some c
  | _ => none

/-- The connection has come from the HTTPS listener, or its first bytes have been those of a TLS client. -/
def TakenForTls (allow : Bool) (as : List Event) (c : ConnId) : Prop :=
  .accept c .https ∈ as ∨ allow = true ∧ .peeked c .success tlsHandshakeSign ∈ as

/-- Nothing has happened that makes the connection a TLS one. -/
structure Plain (as : List Event) (c : ConnId) : Prop where
  port : .accept c .https ∉ as
  sign : .peeked c .success tlsHandshakeSign ∉ as
  handshake : .handshaken c .success ∉ as

/-- What the history of a connection says about where it is. -/
def Route (allow : Bool) (as : List Event) (c : ConnId) : Conn → Prop
  | .accepted .https => .accept c .https ∈ as ∧ .handshaken c .success ∉ as
  | .sniffing (.ready (ec, data)) =>
    (allow = true ∧ PeekResult ec data ∧ .accept c .https ∉ as ∧ .handshaken c .success ∉ as) ∧
      (.peeked c .success tlsHandshakeSign ∈ as ↔ ec = .success ∧ data = tlsHandshakeSign)
  | .sniffing .pending => allow = true ∧ Plain as c
  | .handshake task =>
    TakenForTls allow as c ∧ (.handshaken c .success ∈ as ↔ task = .handshaking (.ready .success))
  | .http _ => .handshaken c .success ∈ as ↔ TakenForTls allow as c
  | .closed => True
  | _ => Plain as c

theorem Plain.not_taken (h : Plain as c) : ¬ TakenForTls allow as c := by
  rintro (hm | ⟨-, hm⟩)
  · exact h.port hm
  · exact h.sign hm

/-! ### Events that decide nothing for the connection -/

theorem mem_silent {e' : Event} (he : e.marks ≠ some c) (he' : e'.marks = some c) :
    e' ∈ as ++ [e] ↔ e' ∈ as := by
  rw [List.mem_append, List.mem_singleton]
  refine or_iff_left ?_
  rintro rfl
  exact he he'

theorem Plain.silent (h : Plain as c) (he : e.marks ≠ some c) : Plain (as ++ [e]) c where
  port := mt (mem_silent he rfl).1 h.port
  sign := mt (mem_silent he rfl).1 h.sign
  handshake := mt (mem_silent he rfl).1 h.handshake

theorem TakenForTls.silent (he : e.marks ≠ some c) :
    TakenForTls allow (as ++ [e]) c ↔ TakenForTls allow as c := by
  rw [TakenForTls, TakenForTls, mem_silent he rfl, mem_silent he rfl]

theorem Route.silent (h : Route allow as c conn) (he : e.marks ≠ some c) : Route allow (as ++ [e]) c conn := by
  cases conn with
  | fresh | dispatching => exact Plain.silent h he
  | accepted port =>
    cases port with
    | http => exact Plain.silent h he
    | https => exact ⟨(mem_silent he rfl).2 h.1, mt (mem_silent he rfl).1 h.2⟩
  | sniffing op =>
    cases op with
    | pending => exact ⟨h.1, h.2.silent he⟩
    | ready r =>
      obtain ⟨⟨ha, hp, hport, hhand⟩, hsign⟩ := h
      exact ⟨⟨ha, hp, mt (mem_silent he rfl).1 hport, mt (mem_silent he rfl).1 hhand⟩,
        (mem_silent he rfl).trans hsign⟩
  | handshake task => exact ⟨(TakenForTls.silent he).2 h.1, (mem_silent he rfl).trans h.2⟩
  | http session => exact (mem_silent he rfl).trans (Iff.trans h (TakenForTls.silent he).symm)
  | closed => trivial

/-! ### The step -/

theorem isTls_data {data memory : Bytes} (h : PeekResult .success data) :
    isTls data.length ((data ++ memory.drop data.length).take tlsHandshakeSign.length) = true ↔
      data = tlsHandshakeSign := by
  have hlen : tlsHandshakeSign.length = 2 := rfl
  obtain ⟨-, hle⟩ : 1 ≤ data.length ∧ data.length ≤ 2 := by simpa [PeekResult, hlen] using h
  by_cases h₂ : data.length = 2
  · rw [hlen, List.take_append_of_le_length (by omega), List.take_of_length_le (by omega)]
    simp [isTls, hlen, h₂]
  · rw [isTls_short (by omega)]
    constructor
    · intro hf
      cases hf
    · rintro rfl
      exact absurd hlen h₂

theorem route_runSniff {ok : Bool} (hi : Route allow as c (s.conns c)) (h : step s (.runSniff c ok) = some t) :
    Route allow (as ++ [.runSniff c ok]) c (t.conns c) := by
  have hmark : (Event.runSniff c ok).marks ≠ some c := by simp [Event.marks]
  have hready : ∃ ec data, s.conns c = .sniffing (.ready (ec, data)) := by
    simp only [step] at h
    split at h
    · exact ⟨_, _, ‹_›⟩
    · cases h
  obtain ⟨ec, data, hc⟩ := hready
  rw [hc] at hi
  obtain ⟨⟨ha, hp, hport, hhand⟩, hsign⟩ := hi
  by_cases he : ec = .success
  · subst he
    rw [step_runSniff hc h]
    by_cases hd : data = tlsHandshakeSign
    · rw [if_pos ((isTls_data hp).2 hd)]
      cases ok with
      | false => trivial
      | true =>
        have htls : Route allow as c (.handshake .constructed) :=
          ⟨.inr ⟨ha, hsign.2 ⟨rfl, hd⟩⟩, by simp [hhand]⟩
        exact htls.silent hmark
    · rw [if_neg (mt (isTls_data hp).1 hd)]
      have hplain : Plain as c := ⟨hport, fun hm => hd (hsign.1 hm).2, hhand⟩
      have hhttp : Route allow as c (.http (.new s.upstreamInfo (s.memory c))) :=
        iff_of_false hhand hplain.not_taken
      exact hhttp.silent hmark
  · have ht : t.conns c = .closed := by
      simp only [step, hc, protocolDetected, checkEc, he, decide_false, Bool.not_false, if_true,
        Option.some.injEq] at h
      rw [← h, setConn_conns, if_pos rfl]
    rw [ht]
    trivial

theorem route_setConn {c' : ConnId} {r : Registry SessionId} (hi : Route allow as c (s.conns c))
    (he : e.marks = none ∨ e.marks = some c') (hc : c = c' → Route allow (as ++ [e]) c conn) :
    Route allow (as ++ [e]) c (({ s with registry := r }.setConn c' conn).conns c) := by
  rw [setConn_conns]
  split
  · exact hc ‹_›
  · rename_i hne
    refine hi.silent ?_
    rcases he with he | he <;> rw [he]
    · simp
    · exact fun h => hne (Option.some.inj h).symm

/-- The event moves a connection on, and its history stays what it is. -/
theorem route_moved {c' : ConnId} {r : Registry SessionId} {conn' : Conn} (hi : Route allow as c (s.conns c))
    (he : e.marks = none) (h : s.conns c' = conn)
    (hc : Route allow (as ++ [e]) c conn → Route allow (as ++ [e]) c conn') :
    Route allow (as ++ [e]) c (({ s with registry := r }.setConn c' conn').conns c) := by
  refine route_setConn hi (.inl he) ?_
  rintro rfl
  rw [h] at hi
  exact hc (hi.silent (by simp [he]))

theorem marks_secures {c' : ConnId} {ok : Bool} (h : s.Secures c' ok e) : e.marks = none := by
  rcases h with ⟨rfl, -⟩ | ⟨rfl, -⟩ <;> rfl

theorem marks_launches {c' : ConnId} (h : s.Launches c' e) : e.marks = none := by
  rcases h with ⟨rfl, -⟩ | ⟨_, _, rfl, -⟩ | ⟨rfl, -⟩ <;> rfl

theorem marks_shutdown {a : Registry.Action SessionId} (h : e.shutdownAction = some a) : e.marks = none := by
  cases e <;> first | rfl | cases h

/-- The connection moves by an event that is not its `runSniff`. -/
theorem Step.route (hi : Route s.cfg.server.allowHttpsOverHttpPort as c (s.conns c)) (h : Step s e t)
    (hs : ∀ ok, e ≠ .runSniff c ok) :
    Route s.cfg.server.allowHttpsOverHttpPort (as ++ [e]) c (t.conns c) := by
  have own {conn : Conn} (h : s.conns c = conn) : Route s.cfg.server.allowHttpsOverHttpPort as c conn := h ▸ hi
  have silent {conn : Conn} (h : s.conns c = conn) (he : e.marks = none) :
      Route s.cfg.server.allowHttpsOverHttpPort (as ++ [e]) c conn := (own h).silent (by simp [he])
  cases h with
  | @accept c' port h =>
    refine route_setConn (r := s.registry) hi (.inr rfl) ?_
    rintro rfl
    have hp : Plain as c := own h
    have hhand : .handshaken c .success ∉ as ++ [.accept c port] := by simp [hp.handshake]
    cases port with
    | http => exact ⟨by simp [hp.port], by simp [hp.sign], hhand⟩
    | https => exact ⟨by simp, hhand⟩
  | dispatch h => exact route_moved (r := s.registry) hi rfl h fun hp => hp
  | sniff h ha => exact route_moved (r := s.registry) hi rfl h fun hp => ⟨ha, hp⟩
  | @peeked c' ec data h hp =>
    refine route_setConn (r := s.registry) hi (.inr rfl) ?_
    rintro rfl
    obtain ⟨ha, hplain⟩ := own h
    refine ⟨⟨ha, hp, by simp [hplain.port], by simp [hplain.handshake]⟩, ?_⟩
    simp [hplain.sign, eq_comm]
  | sniffFailed | handshakeFailed | finish =>
    exact route_setConn (r := s.registry) hi (.inl rfl) fun _ => trivial
  | noContext h => exact route_setConn (r := s.registry) hi (.inl (marks_secures h)) fun _ => trivial
  | secure h =>
    refine route_setConn hi (.inl (marks_secures h)) ?_
    rintro rfl
    rcases h with ⟨rfl, hc⟩ | ⟨rfl, -⟩
    · obtain ⟨hport, hhand⟩ := silent hc rfl
      exact ⟨.inl hport, iff_of_false hhand (by simp)⟩
    · exact absurd rfl (hs _)
  | launch h =>
    refine route_setConn hi (.inl (marks_launches h)) ?_
    rintro rfl
    rcases h with ⟨rfl, hc, -⟩ | ⟨_, _, rfl, -⟩ | ⟨rfl, hc⟩
    -- The port takes no TLS clients; the peek has been left to `route_runSniff`; the handshake is done.
    · have hp : Plain (as ++ [.runDispatch c]) c := silent hc rfl
      exact iff_of_false hp.handshake hp.not_taken
    · exact absurd rfl (hs _)
    · obtain ⟨htls, hhand⟩ := silent hc rfl
      exact iff_of_true (hhand.2 rfl) htls
  | registerHandshake h =>
    refine route_moved hi rfl h ?_
    rintro ⟨htls, hhand⟩
    split
    · trivial
    · exact ⟨htls, hhand.trans (by simp)⟩
  | registerHttp h =>
    refine route_moved hi rfl h fun hr => ?_
    split
    · trivial
    · exact hr
  | startHandshake h | handshake h =>
    refine route_moved hi rfl h ?_
    rintro ⟨htls, hhand⟩
    exact ⟨htls, hhand.trans (by simp)⟩
  | startHttp h | session h => exact route_moved hi rfl h fun hr => hr
  | @handshaken c' ec h =>
    refine route_setConn (r := s.registry) hi (.inr rfl) ?_
    rintro rfl
    obtain ⟨htls, hhand⟩ := own h
    refine ⟨htls.imp (List.mem_append_left _) (.imp_right (List.mem_append_left _)), ?_⟩
    simp [hhand, eq_comm]
  | destroy => exact hi.silent (by simp [Event.marks])
  | shutdown he => exact hi.silent (by simp [marks_shutdown he])
  | stopNext =>
    unfold stopSession
    split
    · rename_i h _
      exact route_moved hi rfl h fun hr => hr
    · exact hi.silent (by simp [Event.marks])

theorem route_of_run (h : Run (Det step) (new cfg memory) as s) (c : ConnId) :
    Route cfg.server.allowHttpsOverHttpPort as c (s.conns c) := by
  have hplain : Plain [] c := ⟨List.not_mem_nil, List.not_mem_nil, List.not_mem_nil⟩
  have hnew : Route cfg.server.allowHttpsOverHttpPort [] c ((new cfg memory).conns c) := hplain
  have hinv := h.trace_invariant
    (I := fun as s => s.cfg = cfg ∧ Route cfg.server.allowHttpsOverHttpPort as c (s.conns c)) ⟨rfl, hnew⟩ ?_
  · exact hinv.2
  · rintro as s e t ⟨rfl, hi⟩ hst
    refine ⟨(step_cases hst).frame.1, ?_⟩
    by_cases he : ∃ ok, e = .runSniff c ok
    · obtain ⟨ok, rfl⟩ := he
      exact route_runSniff hi hst
    · exact (step_cases hst).route hi fun ok h => he ⟨ok, h⟩

/-- The HTTP session of a connection talks over TLS exactly if the connection has been taken for a TLS one. -/
theorem handshaken_iff {session : HttpSession} (h : Run (Det step) (new cfg memory) as s)
    (hc : s.conns c = .http session) :
    .handshaken c .success ∈ as ↔ TakenForTls cfg.server.allowHttpsOverHttpPort as c := by
  have hr := route_of_run h c
  rw [hc] at hr
  exact hr

end Server

namespace System

variable {s : System} {e : Event} {as : List Event} {cfg : Config} {memory : ConnId → Bytes} {now : ℚ}
  {c : ConnId}

theorem mem_shown {e' : Event} {f : Server.Event} {bss : List (List Server.Event)}
    (he : ∀ e bs, Shows e bs → (e = e' ↔ f ∈ bs)) (h : List.Forall₂ Shows as bss) :
    f ∈ bss.flatten ↔ e' ∈ as := by
  have hiff := Lts.forall₂_exists_iff he h
  rw [List.mem_flatten, ← hiff]
  simp

theorem Shows.server_iff {f : Server.Event} {bs : List Server.Event} (hf : f.isShared = false) (h : Shows e bs) :
    e = .server f ↔ f ∈ bs := by
  cases h with
  | server he => simp [eq_comm]
  | tick | listener => simp
  | _ =>
    rw [List.mem_singleton]
    refine iff_of_false (by simp) ?_
    rintro rfl
    cases hf

theorem Shows.accepted_iff {p : Port} {bs : List Server.Event} (h : Shows e bs) :
    e = .accepted p c ↔ .accept c p ∈ bs := by
  cases h with
  | accepted => simp [and_comm, eq_comm]
  | @server f he =>
    rw [List.mem_singleton]
    refine iff_of_false (by simp) ?_
    rintro rfl
    cases he
  | _ => simp

/-- The client of a session has gone through a TLS handshake exactly if it has come to the HTTPS port or, where
the HTTP port takes TLS clients, the peek has delivered both bytes of the sign. -/
theorem secured_iff {session : HttpSession} (h : Run (Det step) (new cfg memory now) as s)
    (hc : s.conns c = .http session) :
    .server (.handshaken c .success) ∈ as ↔ .accepted .https c ∈ as ∨
      cfg.server.allowHttpsOverHttpPort = true ∧ .server (.peeked c .success tlsHandshakeSign) ∈ as := by
  obtain ⟨bss, hs, hr⟩ := server_of_run h
  have hserver {f : Server.Event} (hf : f.isShared = false) : .server f ∈ as ↔ f ∈ bss.flatten :=
    (mem_shown (fun _ _ hb => hb.server_iff hf) hs).symm
  have haccepted : .accepted .https c ∈ as ↔ .accept c .https ∈ bss.flatten :=
    (mem_shown (fun _ _ hb => hb.accepted_iff) hs).symm
  rw [hserver rfl, hserver rfl, haccepted]
  exact Server.handshaken_iff hr hc

/-- The handshake of the connection, up to its HTTP session. -/
def handshakes (c : ConnId) : List Event :=
  [.server (.registerSession ⟨c, .handshake⟩), .server (.startSession ⟨c, .handshake⟩), .server (.runHandshake c),
   .server (.handshaken c .success), .server (.runHandshake c)]

/-- A client comes to the HTTP port, and its first bytes are peeked at. -/
def sniffed (c : ConnId) (data : Bytes) : List Event :=
  [.listener (.checkShutdown .http), .listener (.startAccept .http), .accepted .http c,
   .listener (.resume .http), .dispatch .http ⟨true, true⟩, .server (.runDispatch c),
   .server (.peeked c .success data), .runSniff c ⟨true, true⟩]

/-- A client of the HTTPS port, a TLS client of the HTTP port and a plain one. -/
def threeRoutes : List Event :=
  tlsConnects 0 ⟨true, true⟩ ++ handshakes 0 ++ (sniffed 1 tlsHandshakeSign ++ handshakes 1) ++
    sniffed 2 [0x47, 0x45]

theorem secured_iff_three : ∃ s, Run (Det step) (new Server.sniffConfig (fun _ => []) 0) threeRoutes s ∧
    ∀ c ∈ [0, 1, 2], ∃ session, s.conns c = .http session ∧
      (.server (.handshaken c .success) ∈ threeRoutes ↔ .accepted .https c ∈ threeRoutes ∨
        Server.sniffConfig.server.allowHttpsOverHttpPort = true ∧
          .server (.peeked c .success tlsHandshakeSign) ∈ threeRoutes) := by
  obtain ⟨s, h, hs⟩ := Lts.exists_run (p := fun s : System => [0, 1, 2].all fun c => (s.conns c).session?.isSome)
    (show ((threeRoutes.foldlM step (new Server.sniffConfig (fun _ => []) 0)).any _) = true by decide +kernel)
  refine ⟨s, h, fun c hm => ?_⟩
  obtain ⟨session, hsession⟩ := Option.isSome_iff_exists.1 (List.all_eq_true.1 hs c hm)
  have hc := Conn.session?_eq_some.1 hsession
  exact ⟨session, hc, secured_iff h hc⟩

end System

end MarketBridge
