import MarketBridge.HttpHelper

/-!
# From a header block to the upstream request

`onRequest` is the decision of `HTTPSession::on_request`, `generateRequest` the text that
`OutgoingSession::generate_request` builds. The text is kept as pieces that name where their bytes come
from, so that a byte of the result can be traced to the template, the client or the configuration.
-/

namespace MarketBridge

def httpRequestHeadersDelimiter : Bytes := lit "\r\n\r\n"

/-- What `async_read_until` delivers: the bytes up to the first delimiter, the delimiter included. -/
def IsHeaderBlock (raw : Bytes) : Prop :=
  httpRequestHeadersDelimiter <:+ raw ∧ ¬ httpRequestHeadersDelimiter <:+: raw.dropLast

instance (raw : Bytes) : Decidable (IsHeaderBlock raw) := inferInstanceAs (Decidable (_ ∧ _))

inductive Dispatch
  | none
  | disallow
  | health (request : HttpRequest)
  | outgoing (request : HttpRequest)

/-- `on_request`, where `allowed` is the answer of `rate_limiter_->allow()`. -/
def onRequest (stopped allowed : Bool) (request : HttpRequest) : Dispatch :=
  if stopped then .none
  else if !allowed then .disallow
  else if request.target = lit "/health" then .health request
  else .outgoing request

structure UpstreamInfo where
  host : Bytes
  port : UInt16
  ignoreCertificateVerification : Bool := false
deriving DecidableEq

/-- Where a byte of the upstream request comes from: a text or a line end of the template, the client's
target, the configured host, the agent (the client's, else the default one). -/
inductive Origin
  | text | crlf | target | host | userAgent
deriving DecidableEq, Repr

def defaultUserAgent : Bytes := lit "market-bridge/1.0.0"

def userAgent (request : HttpRequest) : Bytes :=
  match request.headers[lit "User-Agent"]? with
  | some v => v
  | none => defaultUserAgent

/-- The template of `generate_request` with its three arguments put in. -/
def requestPieces (request : HttpRequest) (host : Bytes) : List (Origin × Bytes) :=
  [(.text, lit "GET "), (.target, request.target), (.text, lit " HTTP/1.1"), (.crlf, CRLF),
   (.text, lit "Host: "), (.host, host), (.crlf, CRLF),
   (.text, lit "User-Agent: "), (.userAgent, userAgent request), (.crlf, CRLF),
   (.text, lit "Accept: */*"), (.crlf, CRLF),
   (.text, lit "Connection: close"), (.crlf, CRLF),
   (.crlf, CRLF)]

def generateRequest (request : HttpRequest) (host : Bytes) : Bytes :=
  (requestPieces request host).flatMap (·.2)

/-- The bytes of the upstream request, each with its origin. -/
def requestBytes (request : HttpRequest) (host : Bytes) : List (Origin × UInt8) :=
  (requestPieces request host).flatMap fun p => p.2.map (p.1, ·)

theorem requestBytes_snd (request : HttpRequest) (host : Bytes) :
    (requestBytes request host).map (·.2) = generateRequest request host := by
  simp [requestBytes, generateRequest, List.map_flatMap, Function.comp_def]

/-! ### What the parser lets through -/

/-- The first line of a block, without its line end. -/
def firstLine (raw : Bytes) : Bytes := popCr (raw.takeWhile (· != LF))

theorem parseRequest_line (raw : Bytes) :
    (parseRequest raw).method = ((Words.words isspace (firstLine raw))[0]?).getD [] ∧
    (parseRequest raw).target = ((Words.words isspace (firstLine raw))[1]?).getD [] ∧
    (parseRequest raw).version = ((Words.words isspace (firstLine raw))[2]?).getD [] := by
  unfold parseRequest
  split
  · rename_i hg
    -- only an empty input has no first line
    obtain rfl : raw = [] := by simpa using IStringStream.getline_none hg
    simp [firstLine, popCr]
  · rename_i line iss hg
    obtain rfl : line = raw.takeWhile (· != LF) := by
      obtain ⟨hl, -, ⟨hr, -⟩ | ⟨hr, -, -⟩⟩ := IStringStream.getline_some hg
      · rw [show raw = line ++ LF :: iss.rest from hr, Words.takeWhile_append_cons
          (IStringStream.bne_of_notMem hl) (bne_self_eq_false LF)]
      · rw [show raw = line from hr]
        exact (List.takeWhile_eq_self_iff.2 (IStringStream.bne_of_notMem hl)).symm
    simp [parseRequestLine_eq, firstLine]

theorem noSpace_word {l : Bytes} (i : Nat) : NoSpace (((Words.words isspace l)[i]?).getD []) := by
  cases h : (Words.words isspace l)[i]? with
  | none => exact fun b hb => absurd hb List.not_mem_nil
  | some w => exact (Words.of_mem_words (List.mem_of_getElem? h)).2

theorem parseRequest_target_noSpace (raw : Bytes) : NoSpace (parseRequest raw).target := by
  rw [(parseRequest_line raw).2.1]; exact noSpace_word 1

/-- Every header the parser stores has a name without colon and LF and a value without LF that does not
start with a blank. -/
def HeadersOk (headers : HeaderMap) : Prop :=
  ∀ name value : Bytes, headers[name]? = some value →
    COLON ∉ name ∧ LF ∉ name ∧ LF ∉ value ∧ ∀ b, value.head? = some b → isBlank b = false

theorem HeadersOk.headerLine {line : Bytes} {headers : HeaderMap} (hl : LF ∉ line) (h : HeadersOk headers) :
    HeadersOk (parseHeaderLine line headers) := by
  rcases parseHeaderLine_cases line headers with ⟨-, he⟩ | ⟨name, value, rfl, hn, he⟩
  · rwa [he]
  · rw [he]
    intro k v hk
    rw [HeaderMap.getElem?_insert] at hk
    split at hk
    · rename_i hc
      subst hc
      obtain rfl : value.dropWhile isBlank = v := by simpa using hk
      refine ⟨hn, fun hm => hl (by simp [hm]), fun hm => hl ?_, fun b hb => ?_⟩
      · exact List.mem_append_right _ (List.mem_cons_of_mem _ ((List.dropWhile_sublist _).subset hm))
      · exact isBlank_of_head?_dropWhile hb
    · exact h k v hk

theorem parseRequest_headersOk (raw : Bytes) : HeadersOk (parseRequest raw).headers := by
  have h₀ : HeadersOk ∅ := by simp [HeadersOk]
  unfold parseRequest
  split
  · exact h₀
  · refine parseHeaders_induct (P := HeadersOk) (fun line hs hl h => ?_) _ _ h₀
    exact h.headerLine fun hm => hl (popCr_subset _ hm)

end MarketBridge
