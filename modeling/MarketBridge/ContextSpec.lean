import MarketBridge.AcceptSpec
import MarketBridge.SniffSpec

/-!
# The SSL context

`init_ssl_context` is called for each connection that is taken for a TLS one until it has succeeded, and then
no more: the handshakes share the one context, and no later connection is dropped for want of it, whatever
becomes of the certificate files.
-/

namespace MarketBridge

open Lts (Run Det)

namespace SslContext

variable {x : SslContext}

/-- What the calls of `init_ssl_context` have returned: failures, and at the end the success that the flag
stands for. -/
def Settled (x : SslContext) : Prop :=
  ∃ n, x.inits = List.replicate n false ++ if x.initFlag then [true] else []

theorem prepare_ready (h : x.initFlag = true) (result : Bool) : x.prepare result = (true, x) := by
  simp [prepare, callOnce, h]

theorem prepare_unready (h : x.initFlag = false) (result : Bool) :
    x.prepare result = (result, { initFlag := result, inits := x.inits ++ [result] }) := by
  cases result <;> simp [prepare, callOnce, h]

theorem prepare_fst (x : SslContext) (result : Bool) : (x.prepare result).1 = (x.initFlag || result) := by
  cases h : x.initFlag with
  | true => rw [prepare_ready h]; rfl
  | false => rw [prepare_unready h]; rfl

theorem prepare_initFlag (x : SslContext) (result : Bool) :
    (x.prepare result).2.initFlag = (x.initFlag || result) := by
  cases h : x.initFlag with
  | true => rw [prepare_ready h]; exact h
  | false => rw [prepare_unready h]; rfl

theorem Settled.prepare (hi : x.Settled) (result : Bool) : (x.prepare result).2.Settled := by
  cases h : x.initFlag with
  | true =>
    rw [prepare_ready h]
    exact hi
  | false =>
    obtain ⟨n, hn⟩ := hi
    rw [h, if_neg (by simp), List.append_nil] at hn
    rw [prepare_unready h]
    cases result with
    | true => exact ⟨n, by simp [hn]⟩
    | false => exact ⟨n + 1, by simp [hn, List.replicate_succ']⟩

end SslContext

namespace Server

variable {s t : Server} {c : ConnId} {e : Event}

theorem step_runListener {ok : Bool} (hc : s.conns c = .accepted .https)
    (h : step s (.runListener c ok) = some t) : t.conns c = sslRoute ok := by
  simp only [step, hc] at h
  cases ok with
  | false =>
    obtain rfl : _ = t := by simpa [sslHandshake] using h
    rw [setConn_conns, if_pos rfl]
    rfl
  | true =>
    obtain ⟨u, -, rfl⟩ := Option.map_eq_some_iff.1 (by simpa [sslHandshake] using h)
    rw [setConn_conns, if_pos rfl]
    rfl

theorem step_runSniff_tls {ok : Bool} (hd : s.detectsTls c = true) (h : step s (.runSniff c ok) = some t) :
    t.conns c = sslRoute ok := by
  unfold detectsTls at hd
  split at hd
  · rename_i ec data hc
    obtain ⟨rfl, htls⟩ : ec = .success ∧ _ := by simpa using hd
    rw [step_runSniff hc h, if_pos (by simpa using htls)]
  · cases hd

/-- A handshake session is made by the events that call `ssl_handshake` with a context. -/
theorem Step.handshake_inv {task : HandshakeTask} (h : Step s e t) (hc : t.conns c = .handshake task) :
    (∃ task', s.conns c = .handshake task') ∨ s.Secures c true e := by
  have hset {c' : ConnId} {conn : Conn} {r : Registry SessionId}
      (hc : ({ s with registry := r }.setConn c' conn).conns c = .handshake task)
      (hn : c = c' → conn = .handshake task → (∃ task', s.conns c = .handshake task') ∨ s.Secures c true e) :
      (∃ task', s.conns c = .handshake task') ∨ s.Secures c true e := by
    rw [setConn_conns] at hc
    split at hc
    · exact hn ‹_› hc
    · exact .inl ⟨task, hc⟩
  cases h with
  | accept | dispatch | sniff | peeked | sniffFailed | noContext | handshakeFailed | session | finish =>
    refine hset (r := s.registry) hc ?_
    rintro - hconn
    cases hconn
  | launch | startHttp =>
    refine hset hc ?_
    rintro - hconn
    cases hconn
  | registerHttp =>
    refine hset hc ?_
    rintro - hconn
    split at hconn <;> cases hconn
  | secure h =>
    refine hset hc ?_
    rintro rfl -
    exact .inr h
  | registerHandshake h | startHandshake h =>
    refine hset hc ?_
    rintro rfl -
    exact .inl ⟨_, h⟩
  | handshake h | handshaken h =>
    refine hset (r := s.registry) hc ?_
    rintro rfl -
    exact .inl ⟨_, h⟩
  | destroy | shutdown => exact .inl ⟨task, hc⟩
  | @stopNext k active rest i r =>
    unfold stopSession at hc
    split at hc
    · refine hset hc ?_
      rintro - hconn
      cases hconn
    · exact .inl ⟨task, hc⟩

end Server

namespace System

variable {s t : System} {e : Event} {as bs : List Event} {cfg : Config} {memory : ConnId → Bytes} {now : ℚ}
  {c : ConnId} {files : TlsFiles}

/-- The event calls `ssl_handshake` with the socket of the connection. -/
def Secures (s : System) (c : ConnId) (files : TlsFiles) (e : Event) : Prop :=
  e = .dispatch .https files ∧ s.sockets .https = some c ∨ e = .runSniff c files ∧ s.server.detectsTls c = true

/-- The context that `ssl_handshake` leaves. -/
def prepared (s : System) (files : TlsFiles) : Bool × SslContext :=
  s.sslContext.prepare (initSslContext s.listeners.cfg.tls files)

theorem context_serverStep {e : Server.Event} (h : s.serverStep e = some t) : t.sslContext = s.sslContext := by
  rw [(of_serverStep h).2]
  rfl

/-- A step calls `ssl_handshake` for one connection or leaves the context alone. -/
inductive ContextStep (s : System) (e : Event) (t : System) : Prop
  | secure {c : ConnId} {files : TlsFiles} (he : s.Secures c files e) (ht : t.sslContext = (s.prepared files).2)
      (hs : e = .dispatch .https files ∧ s.server.step (.runListener c (s.prepared files).1) = some t.server ∨
        e = .runSniff c files ∧ s.server.step (.runSniff c (s.prepared files).1) = some t.server)
  | other (he : ∀ c files, ¬ s.Secures c files e) (ht : t.sslContext = s.sslContext)

theorem Step.contextStep (h : Step s e t) : s.ContextStep e t := by
  cases h with
  | tick => exact .other (by simp [Secures]) rfl
  | @dispatch p files c listeners t hc hl ht =>
    have hserver := server_listeners hl (by simp) (by simp) (Function.update s.sockets p none)
    cases p with
    | http =>
      have hcontext := context_serverStep ht
      exact .other (by simp [Secures]) hcontext
    | https =>
      have ht' := of_sslHandshake ht
      have hcontext := context_serverStep ht'
      have hs := (of_serverStep ht').1
      have hcfg := (Listeners.step_cases hl).cfg
      have hprepared : s.sslContext.prepare (initSslContext listeners.cfg.tls files) = s.prepared files := by
        rw [hcfg]
        rfl
      refine .secure (.inl ⟨rfl, hc⟩) (hcontext.trans (congrArg Prod.snd hprepared)) (.inl ⟨rfl, ?_⟩)
      rw [← hprepared]
      exact (congrArg (Server.step · _) hserver).symm.trans hs
  | runSniff hd ht =>
    refine .other (fun c files => ?_) (context_serverStep ht)
    rintro (⟨he, -⟩ | ⟨he, hd'⟩)
    · cases he
    · obtain ⟨rfl, -⟩ := Event.runSniff.inj he
      simp [hd] at hd'
  | runSniffTls hd ht =>
    have ht' := of_sslHandshake ht
    have hcontext := context_serverStep ht'
    exact .secure (.inr ⟨rfl, hd⟩) hcontext (.inr ⟨rfl, (of_serverStep ht').1⟩)
  | timerExpires _ _ ht | runHeader _ _ ht => exact .other (by simp [Secures]) (context_serverStep ht)
  | server _ ht => exact .other (by simp [Secures]) (context_serverStep ht)
  | accepted _ ht | runStart ht | decide _ _ ht =>
    have hcontext := context_serverStep ht
    exact .other (by simp [Secures]) hcontext
  | closeAcceptors ht | listener _ ht =>
    rw [(of_listenerStep ht).2]
    exact .other (by simp [Secures]) rfl

structure Contexts (s : System) : Prop where
  settled : s.sslContext.Settled
  handshake : ∀ c task, s.conns c = .handshake task → s.sslContext.initFlag = true

theorem Contexts.new : (new cfg memory now).Contexts :=
  ⟨⟨0, rfl⟩, fun c task h => by simp [System.new] at h⟩

/-- What a connection becomes for which `ssl_handshake` is called. -/
theorem secured_conn (hh : s.Holds) (hsec : s.Secures c files e) (h : step s e = some t) :
    t.conns c = Server.sslRoute (s.prepared files).1 ∧ t.sslContext = (s.prepared files).2 := by
  cases (step_cases h).contextStep with
  | other he => exact absurd hsec (he c files)
  | @secure c' files' he ht hs =>
    rcases hsec with ⟨rfl, hc⟩ | ⟨rfl, hd⟩
    · rcases hs with ⟨he', hs⟩ | ⟨he', -⟩
      · obtain ⟨-, rfl⟩ := Event.dispatch.inj he'
        rcases he with ⟨-, hc'⟩ | ⟨he, -⟩
        · obtain rfl := Option.some.inj (hc.symm.trans hc')
          exact ⟨Server.step_runListener ((hh.sockets _ _).1 hc) hs, ht⟩
        · cases he
      · cases he'
    · rcases hs with ⟨he', -⟩ | ⟨he', hs⟩
      · cases he'
      · obtain ⟨rfl, rfl⟩ := Event.runSniff.inj he'
        exact ⟨Server.step_runSniff_tls hd hs, ht⟩

theorem handshake_of_serverStep {e : Server.Event} {task : HandshakeTask} (h : s.serverStep e = some t)
    (hc : t.conns c = .handshake task) : (∃ task', s.conns c = .handshake task') ∨ s.server.Secures c true e :=
  (Server.step_cases (of_serverStep h).1).handshake_inv hc

theorem ok_of_secures {server : Server} {e : Server.Event} {c' : ConnId} {ok : Bool}
    (he : e = .runListener c' ok ∨ e = .runSniff c' ok) (h : server.Secures c true e) : ok = true := by
  rcases he with rfl | rfl <;> rcases h with ⟨h, -⟩ | ⟨h, -⟩ <;> cases h <;> rfl

theorem Step.handshake_inv {task : HandshakeTask} (h : Step s e t) (hh : s.Holds)
    (hc : t.conns c = .handshake task) :
    (∃ task', s.conns c = .handshake task') ∨ t.sslContext.initFlag = true := by
  have hother {u : System} {e' : Server.Event} (ht : u.serverStep e' = some t) (hu : u.conns = s.conns)
      (he : ¬ u.server.Secures c true e') : ∃ task', s.conns c = .handshake task' := by
    rcases handshake_of_serverStep ht hc with hk | hsec
    · exact hu ▸ hk
    · exact absurd hsec he
  cases h with
  | tick => exact .inl ⟨task, hc⟩
  | accepted _ ht => exact .inl (hother ht rfl (by simp [Server.Secures]))
  | @dispatch p files c' listeners t hc' _ ht =>
    cases p with
    | http =>
      refine .inl (hother ht rfl ?_)
      rintro (⟨he, ha⟩ | ⟨he, -⟩)
      · obtain ⟨rfl, -⟩ := Server.Event.runListener.inj he
        have hp := (hh.sockets .http c').1 hc'
        exact absurd (hp.symm.trans ha) (by simp)
      · cases he
    | https =>
      have ht' := of_sslHandshake ht
      have hcontext := context_serverStep ht'
      rcases handshake_of_serverStep ht' hc with hk | hsec
      · exact .inl hk
      · refine .inr ?_
        rw [hcontext]
        exact (SslContext.prepare_initFlag _ _).trans
          ((SslContext.prepare_fst _ _).symm.trans (ok_of_secures (.inl rfl) hsec))
  | @runSniff c' files t hd ht =>
    refine .inl (hother ht rfl ?_)
    rintro (⟨he, -⟩ | ⟨he, data, ha⟩)
    · cases he
    · obtain ⟨rfl, -⟩ := Server.Event.runSniff.inj he
      have hroute := Server.step_runSniff ha (of_serverStep ht).1
      have hno : isTls data.length
          ((data ++ (s.server.memory c').drop data.length).take tlsHandshakeSign.length) = false := by
        simpa [Server.detectsTls, ha] using hd
      rw [if_neg (by simpa using hno)] at hroute
      exact absurd (hc.symm.trans hroute) (by simp)
  | runSniffTls _ ht =>
    have ht' := of_sslHandshake ht
    have hcontext := context_serverStep ht'
    rcases handshake_of_serverStep ht' hc with hk | hsec
    · exact .inl hk
    · refine .inr ?_
      rw [hcontext]
      exact (SslContext.prepare_initFlag _ _).trans
        ((SslContext.prepare_fst _ _).symm.trans (ok_of_secures (.inr rfl) hsec))
  | runStart ht | timerExpires _ _ ht | decide _ _ ht | runHeader _ _ ht =>
    exact .inl (hother ht rfl (by simp [Server.Secures]))
  | closeAcceptors ht | listener _ ht =>
    rw [(of_listenerStep ht).2] at hc
    exact .inl ⟨task, hc⟩
  | server he ht =>
    refine .inl (hother ht rfl ?_)
    rintro (⟨rfl, -⟩ | ⟨rfl, -⟩) <;> simp [Server.Event.isShared] at he

theorem Contexts.step (hi : s.Contexts) (hh : s.Holds) (h : Step s e t) : t.Contexts := by
  have hflag : s.sslContext.initFlag = true → t.sslContext.initFlag = true := by
    intro hs
    cases h.contextStep with
    | secure _ ht =>
      rw [ht, prepared, SslContext.prepare_initFlag, hs]
      rfl
    | other _ ht => rwa [ht]
  refine ⟨?_, fun c task hc => ?_⟩
  · cases h.contextStep with
    | secure _ ht =>
      rw [ht]
      exact hi.settled.prepare _
    | other _ ht =>
      rw [ht]
      exact hi.settled
  · rcases h.handshake_inv hh hc with ⟨task', hs⟩ | ht
    · exact hflag (hi.handshake c task' hs)
    · exact ht

theorem contexts_of_run (h : Run (Det step) (new cfg memory now) as s) : s.Contexts := by
  have hinv : s.Holds ∧ s.Contexts := h.invariant (I := fun s => s.Holds ∧ s.Contexts)
    (fun _ _ _ ⟨hh, hi⟩ hst => ⟨hh.step (step_cases hst), hi.step hh (step_cases hst)⟩) ⟨.new, .new⟩
  exact hinv.2

/-- A context that is ready is not touched again. -/
theorem context_kept (hs : s.sslContext.initFlag = true) (h : Run (Det step) s bs t) :
    t.sslContext = s.sslContext := by
  refine h.invariant (I := fun u => u.sslContext = s.sslContext) (fun u e v hu hst => ?_) rfl
  cases (step_cases hst).contextStep with
  | secure _ ht => rw [ht, prepared, hu, SslContext.prepare_ready hs]
  | other _ ht => exact ht.trans hu

/-- The SSL context is initialised until it has succeeded once: every call but the last has failed, a
handshake has the context, and after the success no call is made and no TLS connection is dropped for want of
the context, whatever becomes of the files. Until then a TLS connection is dropped exactly if the call that is
made for it fails. -/
theorem ssl_context_once (h : Run (Det step) (new cfg memory now) as s) :
    (∃ n, s.sslContext.inits = List.replicate n false ++ if s.sslContext.initFlag then [true] else []) ∧
    (∀ c task, s.conns c = .handshake task → s.sslContext.initFlag = true) ∧
    (∀ c files e t, s.Secures c files e → step s e = some t →
      t.conns c = if s.sslContext.initFlag || initSslContext cfg.tls files then .handshake .constructed else .closed) ∧
    (s.sslContext.initFlag = true → ∀ bs t, Run (Det step) s bs t → t.sslContext = s.sslContext) := by
  have hi := contexts_of_run h
  refine ⟨hi.settled, hi.handshake, fun c files e t hsec hst => ?_, fun hs bs t => context_kept hs⟩
  obtain ⟨bss, -, hr⟩ := server_of_run h
  have hcfg : s.listeners.cfg = cfg := (Server.frame_of_run hr).1
  rw [(secured_conn (holds_of_run h) hsec hst).1, prepared, SslContext.prepare_fst, hcfg]
  rfl

/-- A client connects to the HTTPS port. -/
def tlsConnects (c : ConnId) (files : TlsFiles) : List Event :=
  [.listener (.checkShutdown .https), .listener (.startAccept .https), .accepted .https c,
   .listener (.resume .https), .dispatch .https files]

/-- One client comes before the certificate can be read, one after that, and one when it is gone again. -/
def threeTlsClients : List Event :=
  tlsConnects 0 ⟨false, true⟩ ++ tlsConnects 1 ⟨true, true⟩ ++ tlsConnects 2 ⟨false, true⟩

theorem ssl_context_once_three : ∃ s, Run (Det step) (new {} (fun _ => []) 0) threeTlsClients s ∧
    (!(s.conns 0).isReady && (s.conns 1).isReady && (s.conns 2).isReady) = true ∧
    (∃ n, s.sslContext.inits = List.replicate n false ++ if s.sslContext.initFlag then [true] else []) ∧
    (∀ c task, s.conns c = .handshake task → s.sslContext.initFlag = true) ∧
    (s.sslContext.initFlag = true → ∀ bs t, Run (Det step) s bs t → t.sslContext = s.sslContext) := by
  obtain ⟨s, h, hs⟩ := Lts.exists_run
    (p := fun s : System => !(s.conns 0).isReady && (s.conns 1).isReady && (s.conns 2).isReady)
    (show ((threeTlsClients.foldlM step (new {} (fun _ => []) 0)).any _) = true by decide +kernel)
  obtain ⟨h₁, h₂, -, h₄⟩ := ssl_context_once h
  exact ⟨s, h, hs, h₁, h₂, h₄⟩

end System

end MarketBridge
