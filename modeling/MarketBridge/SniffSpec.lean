import MarketBridge.ServerStep

/-!
# Which route a connection takes

The client's bytes arrive in segments; the peek completes with up to two of the bytes that have arrived. A
connection goes to `ssl_handshake` iff both bytes of the sign had arrived, so a peek that sees one byte only
sends a TLS client to the plain HTTP session.
-/

namespace MarketBridge.Server

open Lts (Run Det)

variable {s t : Server} {e : Event} {as bs : List Event} {cfg : Config} {memory : ConnId → Bytes}

/-- The bytes of the first `k` segments. -/
def available (segments : List Bytes) (k : Nat) : Bytes := (segments.take k).flatten

/-- What the peek delivers when `k` segments have arrived. -/
def peek (segments : List Bytes) (k : Nat) : Bytes := (available segments k).take tlsHandshakeSign.length

/-- The connection after `ssl_handshake` has been called for it. -/
def sslRoute (sslContextOk : Bool) : Conn := if sslContextOk then .handshake .constructed else .closed

/-! ### The peek -/

theorem available_prefix (segments : List Bytes) (k : Nat) : available segments k <+: segments.flatten := by
  refine ⟨(segments.drop k).flatten, ?_⟩
  rw [available, ← List.flatten_append, List.take_append_drop]

theorem isTls_short {n : Nat} {buff : Bytes} (h : n < 2) : isTls n buff = false := by
  have hlen : tlsHandshakeSign.length = 2 := rfl
  have : ¬ tlsHandshakeSign.length ≤ n := by omega
  simp [isTls, this]

/-- The check passes iff two bytes have arrived and the stream starts with the sign; the bytes of the buffer
that the peek has not written do not matter. -/
theorem isTls_peek (segments : List Bytes) (k : Nat) (memory : Bytes) :
    isTls (peek segments k).length
        ((peek segments k ++ memory.drop (peek segments k).length).take tlsHandshakeSign.length) = true ↔
      2 ≤ (available segments k).length ∧ tlsHandshakeSign <+: segments.flatten := by
  have hlen : tlsHandshakeSign.length = 2 := rfl
  have hpeek : (peek segments k).length = min 2 (available segments k).length := by
    rw [peek, List.length_take, hlen]
  by_cases ha : 2 ≤ (available segments k).length
  · have hp : (peek segments k).length = 2 := by omega
    have htake : segments.flatten.take 2 = peek segments k := by
      obtain ⟨rest, hr⟩ := available_prefix segments k
      rw [← hr, List.take_append_of_le_length ha]
      rfl
    have hsign : tlsHandshakeSign <+: segments.flatten ↔ peek segments k = tlsHandshakeSign := by
      rw [List.prefix_iff_eq_take, hlen, htake]
      exact eq_comm
    rw [hp, hlen, List.take_append_of_le_length (by omega), List.take_of_length_le (by omega), hsign]
    simp [isTls, hlen, ha]
  · have hp : (peek segments k).length < 2 := by omega
    rw [isTls_short hp]
    exact ⟨nofun, fun h => absurd h.1 ha⟩

/-! ### The connection until its route is chosen -/

theorem setConn_kept {c c' : ConnId} {conn conn' : Conn} (h : s.conns c = conn)
    (hne : c = c' → s.conns c' ≠ conn) :
    (s.setConn c' conn').conns c = conn := by
  rw [setConn_conns]
  split
  · rename_i hc
    subst hc
    exact absurd h (hne rfl)
  · exact h

/-- The result of the peek waits for `runSniff`. -/
theorem Step.sniffing_kept {c : ConnId} {r : ErrorCode × Bytes} (h : Step s e t)
    (hc : s.conns c = .sniffing (.ready r)) (he : ∀ ok, e ≠ .runSniff c ok) :
    t.conns c = .sniffing (.ready r) := by
  have hne : ∀ {c' : ConnId} {conn : Conn}, s.conns c' = conn → conn ≠ .sniffing (.ready r) →
      c = c' → s.conns c' ≠ .sniffing (.ready r) := fun h hn _ => by rw [h]; exact hn
  have hsecures : ∀ {c' : ConnId} {ok : Bool}, s.Secures c' ok e → c = c' → s.conns c' ≠ .sniffing (.ready r) := by
    rintro c' ok (⟨-, h⟩ | ⟨rfl, -⟩) rfl
    · rw [h]; exact nofun
    · exact absurd rfl (he ok)
  cases h with
  | accept h => exact setConn_kept hc (hne h nofun)
  | dispatch h => exact setConn_kept hc (hne h nofun)
  | sniff h => exact setConn_kept hc (hne h nofun)
  | peeked h => exact setConn_kept hc (hne h nofun)
  | sniffFailed h => exact setConn_kept hc fun hcc => absurd rfl (hcc ▸ he _)
  | noContext h => exact setConn_kept hc (hsecures h)
  | secure h => exact setConn_kept (s := { s with registry := _ }) hc (hsecures h)
  | @launch c' e r' h =>
    refine setConn_kept (s := { s with registry := r' }) hc fun hcc => ?_
    subst hcc
    rcases h with ⟨-, h, -⟩ | ⟨ok, _, rfl, -⟩ | ⟨-, h⟩
    · show s.conns c ≠ _
      rw [h]; exact nofun
    · exact absurd rfl (he ok)
    · show s.conns c ≠ _
      rw [h]; exact nofun
  | registerHandshake h => exact setConn_kept (s := { s with registry := _ }) hc (hne h nofun)
  | registerHttp h => exact setConn_kept (s := { s with registry := _ }) hc (hne h nofun)
  | startHandshake h => exact setConn_kept (s := { s with registry := _ }) hc (hne h nofun)
  | startHttp h => exact setConn_kept (s := { s with registry := _ }) hc (hne h nofun)
  | handshake h => exact setConn_kept hc (hne h nofun)
  | handshaken h => exact setConn_kept hc (hne h nofun)
  | handshakeFailed h => exact setConn_kept hc (hne h nofun)
  | session h => exact setConn_kept hc (hne h nofun)
  | finish h => exact setConn_kept hc (hne h nofun)
  | destroy => exact hc
  | shutdown => exact hc
  | stopNext =>
    unfold stopSession
    split
    · rename_i h _
      exact setConn_kept (s := { s with registry := _ }) hc (hne h nofun)
    · exact hc

theorem sniffing_of_run {c : ConnId} {r : ErrorCode × Bytes} (h : Run (Det step) s bs t)
    (hc : s.conns c = .sniffing (.ready r)) (hb : ∀ ok, .runSniff c ok ∉ bs) :
    t.conns c = .sniffing (.ready r) := by
  induction h with
  | nil => exact hc
  | cons hst _ ih =>
    refine ih ((step_cases hst).sniffing_kept hc fun ok he => hb ok ?_) fun ok hm => hb ok ?_
    · rw [he]; exact List.mem_cons_self
    · exact List.mem_cons_of_mem _ hm

theorem step_peeked {c : ConnId} {ec : ErrorCode} {data : Bytes} (h : step s (.peeked c ec data) = some t) :
    t.conns c = .sniffing (.ready (ec, data)) := by
  simp only [step] at h
  split at h
  · obtain ⟨-, rfl⟩ : _ ∧ _ = t := by simpa using h
    rw [setConn_conns, if_pos rfl]
  · cases h

theorem step_runSniff {c : ConnId} {ok : Bool} {data : Bytes} (hc : s.conns c = .sniffing (.ready (.success, data)))
    (h : step s (.runSniff c ok) = some t) :
    t.conns c = if isTls data.length ((data ++ (s.memory c).drop data.length).take tlsHandshakeSign.length) then
      sslRoute ok else .http (.new s.upstreamInfo (s.memory c)) := by
  simp only [step, hc, protocolDetected, checkEc, decide_true, Bool.not_true, Bool.false_eq_true, if_false] at h
  split at h <;> rename_i htls
  · rw [if_pos htls]
    cases ok with
    | false =>
      obtain rfl : _ = t := by simpa [sslHandshake] using h
      rw [setConn_conns, if_pos rfl]; rfl
    | true =>
      obtain ⟨u, -, rfl⟩ := Option.map_eq_some_iff.1 (by simpa [sslHandshake] using h)
      rw [setConn_conns, if_pos rfl]; rfl
  · rw [if_neg htls]
    obtain ⟨u, -, rfl⟩ := Option.map_eq_some_iff.1 h
    rw [setConn_conns, if_pos rfl]

/-- The peek of `dispatch_http_request` has completed after `k` segments of the client's stream; the route is
the right one iff two bytes had arrived or the stream does not start with the sign. -/
theorem route_iff {c : ConnId} {segments : List Bytes} {k : Nat} {ok : Bool}
    (h : Run (Det step) (new cfg memory) (as ++ .peeked c .success (peek segments k) :: bs) s)
    (hb : ∀ ok, .runSniff c ok ∉ bs) (hst : step s (.runSniff c ok) = some t) :
    (t.conns c = sslRoute ok ↔ tlsHandshakeSign <+: segments.flatten) ↔
      2 ≤ (available segments k).length ∨ ¬ tlsHandshakeSign <+: segments.flatten := by
  obtain ⟨u, -, hr⟩ := h.append_inv
  have hc : s.conns c = .sniffing (.ready (.success, peek segments k)) := by
    cases hr with
    | cons hp hr => exact sniffing_of_run hr (step_peeked hp) hb
  have hroute := step_runSniff hc hst
  have htls := isTls_peek segments k (s.memory c)
  have hhttp : Conn.http (.new s.upstreamInfo (s.memory c)) ≠ sslRoute ok := by cases ok <;> exact nofun
  have hiff : t.conns c = sslRoute ok ↔
      2 ≤ (available segments k).length ∧ tlsHandshakeSign <+: segments.flatten := by
    rw [hroute, ← htls]
    split
    · rename_i hi
      exact ⟨fun _ => hi, fun _ => rfl⟩
    · rename_i hi
      exact ⟨fun he => absurd he hhttp, fun he => absurd he hi⟩
  rw [hiff]
  constructor
  · intro hi
    by_cases hs : tlsHandshakeSign <+: segments.flatten
    · exact .inl (hi.2 hs).1
    · exact .inr hs
  · rintro (ha | hs)
    · exact ⟨fun hi => hi.2, fun hs => ⟨ha, hs⟩⟩
    · exact ⟨fun hi => hi.2, fun hs' => absurd hs' hs⟩

def sniffConfig : Config := { server := { allowHttpsOverHttpPort := true } }

def beforePeek : List Event := [.accept 0 .http, .runListener 0 true, .runDispatch 0]

/-- Both bytes of the sign arrive together. -/
theorem route_iff_together : ∃ s t,
    Run (Det step) (new sniffConfig fun _ => []) (beforePeek ++ .peeked 0 .success (peek [[0x16, 0x03]] 1) :: []) s ∧
    step s (.runSniff 0 true) = some t ∧
    ((t.conns 0 = sslRoute true ↔ tlsHandshakeSign <+: [[0x16, 0x03]].flatten) ↔
      2 ≤ (available [[0x16, 0x03]] 1).length ∨ ¬ tlsHandshakeSign <+: [[0x16, 0x03]].flatten) := by
  have hrun : ∃ s t, Run (Det step) (new sniffConfig fun _ => [])
      (beforePeek ++ .peeked 0 .success (peek [[0x16, 0x03]] 1) :: []) s ∧ step s (.runSniff 0 true) = some t :=
    ⟨_, _, Lts.run_det_iff.2 rfl, rfl⟩
  obtain ⟨s, t, h, hst⟩ := hrun
  exact ⟨s, t, h, hst, route_iff h (fun _ => List.not_mem_nil) hst⟩

/-- The first byte of the sign arrives alone: the connection goes to the plain HTTP session. -/
theorem split_sign_not_secured :
    ¬ ∀ (cfg : Config) (memory : ConnId → Bytes) (as bs : List Event) (s t : Server) (c : ConnId)
      (segments : List Bytes) (k : Nat) (ok : Bool), cfg.server.allowHttpsOverHttpPort = true →
      2 ≤ segments.flatten.length → (∀ segment ∈ segments, segment ≠ []) →
      Run (Det step) (new cfg memory) (as ++ .peeked c .success (peek segments k) :: bs) s →
      (∀ ok, .runSniff c ok ∉ bs) → step s (.runSniff c ok) = some t →
      (t.conns c = sslRoute ok ↔ tlsHandshakeSign <+: segments.flatten) := by
  intro h
  have hroute := h sniffConfig (fun _ => []) beforePeek [] _ _ 0 [[0x16], [0x03]] 1 true rfl (by decide)
    (by decide) (Lts.run_det_iff.2 rfl) (fun _ => List.not_mem_nil) rfl
  have htls := hroute.2 (by decide)
  cases htls

end MarketBridge.Server
