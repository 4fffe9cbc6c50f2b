import MarketBridge.Forward

/-!
# What reaches the upstream

The request line that is forwarded, the control bytes of the upstream request and its line structure, for
every block a client can send.
-/

namespace MarketBridge

/-! ### The request line -/

/-- A first line `GET SP target SP version`. -/
def WellFormedGet (line target : Bytes) : Prop :=
  ∃ version, line = lit "GET" ++ [SP] ++ target ++ [SP] ++ version ∧
    target ≠ [] ∧ NoSpace target ∧ version ≠ [] ∧ NoSpace version

theorem words_requestLine {method target version : Bytes} (hm : NoSpace method) (hm' : method ≠ [])
    (ht : NoSpace target) (ht' : target ≠ []) (hv : NoSpace version) (hv' : version ≠ []) :
    Words.words isspace (method ++ [SP] ++ target ++ [SP] ++ version) = [method, target, version] := by
  have hsp : isspace SP = true := by decide
  rw [show method ++ [SP] ++ target ++ [SP] ++ version = method ++ SP :: (target ++ SP :: version) by simp,
    Words.words_append_sep hm hm' hsp, Words.words_append_sep ht ht' hsp, Words.words_of_forall hv hv']

theorem WellFormedGet.target_eq {raw target : Bytes} (h : WellFormedGet (firstLine raw) target) :
    (parseRequest raw).target = target := by
  obtain ⟨version, hl, ht', ht, hv', hv⟩ := h
  have hget : NoSpace (lit "GET") := noSpace_of_all (by decide)
  rw [(parseRequest_line raw).2.1, hl, words_requestLine hget (by decide) ht ht' hv hv']
  rfl

theorem generateRequest_line (request : HttpRequest) (host : Bytes) :
    lit "GET" ++ [SP] ++ request.target ++ [SP] ++ lit "HTTP/1.1" ++ CRLF <+:
      generateRequest request host := by
  simp [generateRequest, requestPieces, lit]

theorem onRequest_outgoing {stopped allowed : Bool} {request r : HttpRequest} :
    onRequest stopped allowed request = .outgoing r ↔
      stopped = false ∧ allowed = true ∧ request.target ≠ lit "/health" ∧ r = request := by
  unfold onRequest
  cases stopped <;> cases allowed <;> simp [eq_comm]
  split <;> simp [*]

/-- Which blocks are forwarded, and with which request line: the decision looks at the second word of the
first line only, and that word is the forwarded target. -/
theorem forwarded_request_line (raw host : Bytes) (stopped allowed : Bool) :
    ((∃ r, onRequest stopped allowed (parseRequest raw) = .outgoing r) ↔
      stopped = false ∧ allowed = true ∧
        ((Words.words isspace (firstLine raw))[1]?).getD [] ≠ lit "/health") ∧
    ∀ r, onRequest stopped allowed (parseRequest raw) = .outgoing r →
      r = parseRequest raw ∧ NoSpace r.target ∧
      r.target = ((Words.words isspace (firstLine raw))[1]?).getD [] ∧
      lit "GET" ++ [SP] ++ r.target ++ [SP] ++ lit "HTTP/1.1" ++ CRLF <+: generateRequest r host ∧
      ∀ target, WellFormedGet (firstLine raw) target → r.target = target := by
  simp only [onRequest_outgoing, (parseRequest_line raw).2.1]
  refine ⟨by simp, ?_⟩
  rintro r ⟨-, -, -, rfl⟩
  exact ⟨rfl, parseRequest_target_noSpace raw, (parseRequest_line raw).2.1,
    generateRequest_line _ _, fun _ h => h.target_eq⟩

/-- A POST is forwarded too. -/
theorem post_forwarded :
    ¬ ∀ (raw host : Bytes) (stopped allowed : Bool) (r : HttpRequest), IsHeaderBlock raw →
      onRequest stopped allowed (parseRequest raw) = .outgoing r →
      ∃ target, WellFormedGet (firstLine raw) target ∧
        lit "GET" ++ [SP] ++ target ++ [SP] ++ lit "HTTP/1.1" ++ CRLF <+: generateRequest r host := by
  intro h
  obtain ⟨target, ⟨version, hl, -⟩, -⟩ := h (lit "POST /api/v3/order HTTP/1.1\r\n\r\n")
    (lit "api.binance.com") false true _ (by decide +kernel)
    (onRequest_outgoing.2 ⟨rfl, rfl, by decide +kernel, rfl⟩)
  have : firstLine (lit "POST /api/v3/order HTTP/1.1\r\n\r\n") = lit "POST /api/v3/order HTTP/1.1" := by
    decide +kernel
  rw [this] at hl
  -- the first bytes differ
  simp [lit] at hl

/-! ### Control bytes -/

/-- A CR or LF of the upstream request is in one of the template's line ends, or in the target, the host
or the agent. -/
theorem requestBytes_control {request : HttpRequest} {host : Bytes} {p : Origin × UInt8}
    (hp : p ∈ requestBytes request host) (hc : p.2 = CR ∨ p.2 = LF) :
    p.1 = .crlf ∨ (p.1 = .target ∧ p.2 ∈ request.target) ∨ (p.1 = .host ∧ p.2 ∈ host) ∨
      (p.1 = .userAgent ∧ p.2 ∈ userAgent request) := by
  have text : ∀ l ∈ [lit "GET ", lit " HTTP/1.1", lit "Host: ", lit "User-Agent: ", lit "Accept: */*",
      lit "Connection: close"], p.2 ∉ l := by
    rcases hc with hc | hc <;> rw [hc] <;> decide
  obtain ⟨⟨o, l⟩, hl, hb⟩ := List.mem_flatMap.1 hp
  obtain ⟨b, hb, rfl⟩ := List.mem_map.1 hb
  simp only [requestPieces, List.mem_cons, Prod.mk.injEq, List.not_mem_nil, or_false] at hl
  simp only [List.forall_mem_cons] at text
  rcases hl with ⟨rfl, rfl⟩ | ⟨rfl, rfl⟩ | ⟨rfl, rfl⟩ | ⟨rfl, rfl⟩ | ⟨rfl, rfl⟩ | ⟨rfl, rfl⟩ | ⟨rfl, rfl⟩ |
    ⟨rfl, rfl⟩ | ⟨rfl, rfl⟩ | ⟨rfl, rfl⟩ | ⟨rfl, rfl⟩ | ⟨rfl, rfl⟩ | ⟨rfl, rfl⟩ | ⟨rfl, rfl⟩ | ⟨rfl, rfl⟩ <;>
    simp_all

theorem mem_requestBytes_userAgent {request : HttpRequest} {host : Bytes} {b : UInt8}
    (hb : b ∈ userAgent request) : (Origin.userAgent, b) ∈ requestBytes request host :=
  List.mem_flatMap.2 ⟨(.userAgent, userAgent request), by simp [requestPieces], List.mem_map.2 ⟨b, hb, rfl⟩⟩

theorem lf_notMem_userAgent (raw : Bytes) : LF ∉ userAgent (parseRequest raw) := by
  unfold userAgent
  split
  · exact (parseRequest_headersOk raw _ _ ‹_›).2.2.1
  · decide

theorem cr_mem_userAgent {request : HttpRequest} :
    CR ∈ userAgent request ↔ ∃ v, request.headers[lit "User-Agent"]? = some v ∧ CR ∈ v := by
  unfold userAgent
  split
  · simp [*]
  · simp only [*, reduceCtorEq, false_and, exists_false, iff_false]; decide

/-- Every LF of the upstream request is the template's, and every CR is the template's or stands in the
client's `User-Agent` value, which is the only way for a client to send one. -/
theorem request_control_bytes (raw host : Bytes) (hcr : CR ∉ host) (hlf : LF ∉ host) :
    (∀ p ∈ requestBytes (parseRequest raw) host, p.2 = LF → p.1 = .crlf) ∧
    (∀ p ∈ requestBytes (parseRequest raw) host, p.2 = CR → p.1 = .crlf ∨ p.1 = .userAgent) ∧
    ((∀ p ∈ requestBytes (parseRequest raw) host, p.2 = CR ∨ p.2 = LF → p.1 = .crlf) ↔
      ∀ v, (parseRequest raw).headers[lit "User-Agent"]? = some v → CR ∉ v) := by
  have ht := parseRequest_target_noSpace raw
  have hl : ∀ p ∈ requestBytes (parseRequest raw) host, p.2 = LF → p.1 = .crlf := by
    intro p hp hb
    rcases requestBytes_control hp (.inr hb) with h | ⟨-, h⟩ | ⟨-, h⟩ | ⟨-, h⟩ <;> rw [hb] at *
    exacts [h, absurd h ht.lf, absurd h hlf, absurd h (lf_notMem_userAgent raw)]
  have hc : ∀ p ∈ requestBytes (parseRequest raw) host, p.2 = CR →
      p.1 = .crlf ∨ (p.1 = .userAgent ∧ CR ∈ userAgent (parseRequest raw)) := by
    intro p hp hb
    rcases requestBytes_control hp (.inl hb) with h | ⟨-, h⟩ | ⟨-, h⟩ | ⟨ho, h⟩ <;> rw [hb] at *
    exacts [.inl h, absurd h ht.cr, absurd h hcr, .inr ⟨ho, h⟩]
  refine ⟨hl, fun p hp hb => (hc p hp hb).imp_right (·.1), fun h v hv hm => ?_, fun h p hp hb => ?_⟩
  · have := h _ (mem_requestBytes_userAgent (cr_mem_userAgent.2 ⟨v, hv, hm⟩)) (.inl rfl)
    simp at this
  · rcases hb with hb | hb
    · refine (hc p hp hb).resolve_right fun ⟨_, hm⟩ => ?_
      obtain ⟨v, hv, hm⟩ := cr_mem_userAgent.1 hm
      exact h v hv hm
    · exact hl p hp hb

theorem request_control_bytes_plain :
    (∀ p ∈ requestBytes (parseRequest (lit "GET / HTTP/1.1\r\nUser-Agent: a\r\n\r\n")) (lit "h"),
      p.2 = LF → p.1 = .crlf) ∧ CR ∉ lit "h" :=
  ⟨(request_control_bytes _ _ (by decide) (by decide)).1, by decide⟩

/-- A bare CR inside the `User-Agent` value is forwarded. -/
theorem bare_cr_forwarded :
    ¬ ∀ raw host : Bytes, IsHeaderBlock raw → CR ∉ host → LF ∉ host →
      ∀ p ∈ requestBytes (parseRequest raw) host, p.2 = CR ∨ p.2 = LF → p.1 = .crlf := by
  intro h
  have := h (lit "GET / HTTP/1.1\r\nUser-Agent: a\rX-Evil: b\r\n\r\n") (lit "api.binance.com")
    (by decide +kernel) (by decide) (by decide) (.userAgent, CR)
    (mem_requestBytes_userAgent (by decide +kernel)) (.inl rfl)
  simp at this

/-! ### The line structure -/

theorem userAgent_head (raw : Bytes) (b : UInt8) (hb : (userAgent (parseRequest raw)).head? = some b) :
    isBlank b = false := by
  unfold userAgent at hb
  split at hb
  · rename_i v hv
    exact (parseRequest_headersOk raw _ v hv).2.2.2 b hb
  · cases hb; rfl

theorem generateRequest_lines (request : HttpRequest) (host : Bytes) :
    generateRequest request host =
      (lit "GET " ++ request.target ++ lit " HTTP/1.1") ++ CRLF ++
      ((lit "Host" ++ COLON :: SP :: host) ++ CRLF ++
      ((lit "User-Agent" ++ COLON :: SP :: userAgent request) ++ CRLF ++
      ((lit "Accept" ++ COLON :: SP :: lit "*/*") ++ CRLF ++
      ((lit "Connection" ++ COLON :: SP :: lit "close") ++ CRLF ++ (CRLF ++ []))))) := by
  simp [generateRequest, requestPieces, lit]

theorem parseRequest_generateRequest (raw host : Bytes) (hlf : LF ∉ host) :
    (parseRequest (generateRequest (parseRequest raw) host)).headers =
      ((((∅ : HeaderMap).insert (lit "Host") (host.dropWhile isBlank)).insert (lit "User-Agent")
        (userAgent (parseRequest raw))).insert (lit "Accept") (lit "*/*")).insert (lit "Connection")
        (lit "close") ∧
    (parseRequest (generateRequest (parseRequest raw) host)).body = [] := by
  have ht := (parseRequest_target_noSpace raw).lf
  have hu := lf_notMem_userAgent raw
  have hg : LF ∉ lit "GET " ++ (parseRequest raw).target ++ lit " HTTP/1.1" := by
    simp only [List.mem_append, not_or]; exact ⟨⟨by decide, ht⟩, by decide⟩
  have hsp {value : Bytes} (h : LF ∉ value) : LF ∉ SP :: value := by
    rw [List.mem_cons, not_or]
    exact ⟨by decide, h⟩
  have hblank : isBlank SP = true := rfl
  rw [generateRequest_lines, parseRequest_crlf _ hg,
    parseHeaders_field _ _ (by decide) (by decide) (hsp hlf),
    parseHeaders_field _ _ (by decide) (by decide) (hsp hu),
    parseHeaders_field _ _ (by decide) (by decide) (by decide),
    parseHeaders_field _ _ (by decide) (by decide) (by decide), parseHeaders_crlf_nil,
    dropWhile_isBlank (userAgent_head raw), List.dropWhile_cons_of_pos hblank,
    show (SP :: lit "*/*").dropWhile isBlank = lit "*/*" by decide,
    show (SP :: lit "close").dropWhile isBlank = lit "close" by decide]
  simp

/-- The upstream request has six lines, the template's four headers, no body, and the agent as the client
sent it: no input adds, removes, splits or shortens a line. -/
theorem request_line_structure (raw host : Bytes) (hlf : LF ∉ host) :
    (generateRequest (parseRequest raw) host).count LF = 6 ∧
    (∀ name, name ∈ (parseRequest (generateRequest (parseRequest raw) host)).headers ↔
      name ∈ [lit "Host", lit "User-Agent", lit "Accept", lit "Connection"]) ∧
    (parseRequest (generateRequest (parseRequest raw) host)).body = [] ∧
    (parseRequest (generateRequest (parseRequest raw) host)).headers[lit "User-Agent"]? =
      some (((parseRequest raw).headers[lit "User-Agent"]?).getD (lit "market-bridge/1.0.0")) := by
  obtain ⟨hh, hb⟩ := parseRequest_generateRequest raw host hlf
  have hua : userAgent (parseRequest raw) =
      ((parseRequest raw).headers[lit "User-Agent"]?).getD (lit "market-bridge/1.0.0") := by
    unfold userAgent; split <;> simp [*, defaultUserAgent]
  refine ⟨?_, fun name => ?_, hb, ?_⟩
  · have ht := List.count_eq_zero.2 (parseRequest_target_noSpace raw).lf
    have hu := List.count_eq_zero.2 (lf_notMem_userAgent raw)
    have hh := List.count_eq_zero.2 hlf
    have htext : ∀ l ∈ [lit "GET ", lit " HTTP/1.1", lit "Host: ", lit "User-Agent: ", lit "Accept: */*",
        lit "Connection: close"], l.count LF = 0 := by decide
    simp only [List.forall_mem_cons] at htext
    simp [generateRequest, requestPieces, ht, hu, hh, htext, show CR ≠ LF by decide]
  · rw [hh]
    simp only [Std.ExtTreeMap.mem_insert, Std.LawfulEqCmp.compare_eq_iff_eq, Std.ExtTreeMap.not_mem_empty,
      or_false, List.mem_cons, List.not_mem_nil]
    grind
  · rw [hh, hua, HeaderMap.getElem?_insert, if_neg (by decide), HeaderMap.getElem?_insert,
      if_neg (by decide), HeaderMap.getElem?_insert, if_pos rfl]

/-- A value with a colon and a CR at its end. -/
theorem request_line_structure_cr :
    (parseRequest (generateRequest
      (parseRequest (lit "GET / HTTP/1.1\r\nUser-Agent: a:\r\r\n\r\n")) (lit "h"))).headers[lit "User-Agent"]? =
      some (lit "a:\r") := by
  rw [(request_line_structure _ _ (by decide)).2.2.2]
  decide +kernel

end MarketBridge
