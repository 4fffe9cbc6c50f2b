import MarketBridge.Stream

/-!
# HTTP requests and responses (`utils/http-helper.h`)

`parseRequest` reads a request from a string stream, line by line; `HttpRequest.toString` and
`HttpResponse.toString` print. A header map is a `std::map<std::string, std::string>`: at most one value
for a name, ordered by the bytes of the names.
-/

namespace MarketBridge

/-- `std::map<std::string, std::string>`. -/
abbrev HeaderMap := Std.ExtTreeMap Bytes Bytes compare

/-- Names are compared byte by byte. -/
theorem HeaderMap.getElem?_insert (headers : HeaderMap) (name value k : Bytes) :
    (headers.insert name value)[k]? = if name = k then some value else headers[k]? := by
  rw [Std.ExtTreeMap.getElem?_insert]
  simp only [Std.LawfulEqCmp.compare_eq_iff_eq]

structure HttpRequest where
  method : Bytes := []
  target : Bytes := []
  version : Bytes := []
  headers : HeaderMap := ∅
  body : Bytes := []

def HeaderMap.toString (headers : HeaderMap) : Bytes :=
  headers.toList.flatMap fun kv => kv.1 ++ lit ": " ++ kv.2 ++ CRLF

def HttpRequest.toString (r : HttpRequest) : Bytes :=
  r.method ++ [SP] ++ r.target ++ [SP] ++ r.version ++ CRLF ++ r.headers.toString ++ CRLF ++ r.body

/-! ### `parse_request` -/

/-- `if (!line.empty() && line.back() == '\r') line.pop_back();` -/
def popCr (line : Bytes) : Bytes := if line.getLast? = some CR then line.dropLast else line

/-- `rl >> req.method >> req.target >> req.version`; a word that is missing leaves its field as it was. -/
def parseRequestLine (line : Bytes) (req : HttpRequest) : HttpRequest :=
  let method := IStringStream.extract ⟨line, true⟩
  let target := method.2.extract
  let version := target.2.extract
  { req with
    method := method.1.getD req.method
    target := target.1.getD req.target
    version := version.1.getD req.version }

def isBlank (b : UInt8) : Bool := b == SP || b == HT

/-- `req.headers[name] = value`, where the line has a colon. -/
def parseHeaderLine (line : Bytes) (headers : HeaderMap) : HeaderMap :=
  match line.dropWhile (· != COLON) with
  | [] => headers
  | _ :: value => headers.insert (line.takeWhile (· != COLON)) (value.dropWhile isBlank)

/-- The header loop: stops at an empty line or where the stream fails. -/
def parseHeaders (iss : IStringStream) (headers : HeaderMap) : HeaderMap × IStringStream :=
  match _h : iss.getline LF with
  | (none, iss') => (headers, iss')
  | (some line, iss') =>
    if popCr line = [] then (headers, iss')
    else parseHeaders iss' (parseHeaderLine (popCr line) headers)
termination_by iss.rest.length
decreasing_by exact IStringStream.getline_lt _h

def parseRequest (raw : Bytes) : HttpRequest :=
  match IStringStream.getline LF ⟨raw, true⟩ with
  | (none, _) => {}
  | (some line, iss) =>
    let req := parseRequestLine (popCr line) {}
    let headers := parseHeaders iss req.headers
    { req with headers := headers.1, body := (headers.2.getline NUL).1.getD [] }

/-! ### Responses -/

inductive HTTPResponseCodes
  | OK | Created | NoContent | BadRequest | Unauthorized | Forbidden | NotFound | RequestTimeout
  | TooManyRequests | BadGateway
deriving DecidableEq, Repr

def HTTPResponseCodes.toInt : HTTPResponseCodes → Int
  | OK => 200
  | Created => 201
  | NoContent => 204
  | BadRequest => 400
  | Unauthorized => 401
  | Forbidden => 403
  | NotFound => 404
  | RequestTimeout => 408
  | TooManyRequests => 429
  | BadGateway => 502

inductive HTTPResponseConnection
  | Close | KeepAlive
deriving DecidableEq, Repr

inductive HTTPResponseContentType
  | TextPlain | ApplicationJson
deriving DecidableEq, Repr

structure HttpResponse where
  statusCode : Int := HTTPResponseCodes.OK.toInt
  reason : Bytes := lit "OK"
  headers : HeaderMap := ∅
  body : Bytes := []

def HttpResponse.toString (r : HttpResponse) : Bytes :=
  lit "HTTP/1.1 " ++ lit (ToString.toString r.statusCode) ++ [SP] ++ r.reason ++ CRLF ++
    r.headers.toString ++
    (if lit "Content-Length" ∈ r.headers then []
      else lit "Content-Length: " ++ lit (ToString.toString r.body.length) ++ CRLF) ++
    CRLF ++ r.body

def generateHttpResponse (statusCode : HTTPResponseCodes) (reason body : Bytes)
    (contentType : HTTPResponseContentType := .TextPlain)
    (connection : HTTPResponseConnection := .Close) : HttpResponse :=
  let headers : HeaderMap :=
    if body ≠ [] then
      ((∅ : HeaderMap).insert (lit "Content-Type")
        (if contentType = .ApplicationJson then lit "application/json" else lit "text/plain")).insert
        (lit "Content-Length") (lit (ToString.toString body.length))
    else (∅ : HeaderMap).insert (lit "Content-Length") (lit "0")
  { statusCode := statusCode.toInt
    reason
    headers := if connection = .Close then headers.insert (lit "Connection") (lit "close") else headers
    body }

/-! ### The request line -/

/-- The three fields of the request line are its first three words, empty where missing. -/
theorem parseRequestLine_eq (line : Bytes) (req : HttpRequest) :
    parseRequestLine line req =
      { req with
        method := ((Words.words isspace line)[0]?).getD req.method
        target := ((Words.words isspace line)[1]?).getD req.target
        version := ((Words.words isspace line)[2]?).getD req.version } := by
  obtain ⟨h₁, h₂⟩ := IStringStream.extract_words ⟨line, true⟩
  obtain ⟨h₃, h₄⟩ := IStringStream.extract_words (IStringStream.extract ⟨line, true⟩).2
  obtain ⟨h₅, -⟩ :=
    IStringStream.extract_words (IStringStream.extract (IStringStream.extract ⟨line, true⟩).2).2
  rw [IStringStream.words_good] at h₁ h₂
  simp [parseRequestLine, h₁, h₃, h₅, h₂, h₄, List.head?_eq_getElem?, List.getElem?_tail]

/-! ### The header loop -/

theorem popCr_eq_self {line : Bytes} (h : line.getLast? ≠ some CR) : popCr line = line := by
  simp [popCr, h]

@[simp] theorem popCr_append_cr (line : Bytes) : popCr (line ++ [CR]) = line := by simp [popCr]

/-- The lines that the header loop of `parse_request` processes, without their CR, and the stream where it
stops. -/
def headerLoop (iss : IStringStream) : List Bytes × IStringStream :=
  match _h : iss.getline LF with
  | (none, iss') => ([], iss')
  | (some line, iss') =>
    if popCr line = [] then ([], iss')
    else (popCr line :: (headerLoop iss').1, (headerLoop iss').2)
termination_by iss.rest.length
decreasing_by all_goals exact IStringStream.getline_lt _h

theorem parseHeaders_eq (iss : IStringStream) (headers : HeaderMap) :
    parseHeaders iss headers =
      ((headerLoop iss).1.foldl (fun hs line => parseHeaderLine line hs) headers, (headerLoop iss).2) := by
  fun_induction parseHeaders iss headers with
  | case1 iss headers iss' hg => rw [headerLoop]; split <;> simp_all
  | case2 iss headers line iss' hg hl => rw [headerLoop]; split <;> simp_all
  | case3 iss headers line iss' hg hl ih =>
    rw [ih]
    conv_rhs => rw [headerLoop]
    split <;> simp_all

theorem headerLoop_line {line : Bytes} (rest : Bytes) (h : LF ∉ line) (hne : popCr line ≠ []) :
    headerLoop ⟨line ++ LF :: rest, true⟩ =
      (popCr line :: (headerLoop ⟨rest, true⟩).1, (headerLoop ⟨rest, true⟩).2) := by
  rw [headerLoop]
  split <;> rename_i hg <;> rw [IStringStream.getline_line rest h] at hg
  · simp at hg
  · obtain ⟨rfl, rfl⟩ : _ = _ ∧ _ = _ := by simpa using hg
    rw [if_neg hne]

theorem headerLoop_blank {line : Bytes} (rest : Bytes) (h : LF ∉ line) (he : popCr line = []) :
    headerLoop ⟨line ++ LF :: rest, true⟩ = ([], ⟨rest, true⟩) := by
  rw [headerLoop]
  split <;> rename_i hg <;> rw [IStringStream.getline_line rest h] at hg
  · simp at hg
  · obtain ⟨rfl, rfl⟩ : _ = _ ∧ _ = _ := by simpa using hg
    rw [if_pos he]

theorem parseHeaders_line {line : Bytes} (rest : Bytes) (headers : HeaderMap) (h : LF ∉ line)
    (hne : popCr line ≠ []) :
    parseHeaders ⟨line ++ LF :: rest, true⟩ headers =
      parseHeaders ⟨rest, true⟩ (parseHeaderLine (popCr line) headers) := by
  rw [parseHeaders_eq, parseHeaders_eq, headerLoop_line rest h hne]
  rfl

theorem parseHeaders_blank {line : Bytes} (rest : Bytes) (headers : HeaderMap) (h : LF ∉ line)
    (he : popCr line = []) :
    parseHeaders ⟨line ++ LF :: rest, true⟩ headers = (headers, ⟨rest, true⟩) := by
  rw [parseHeaders_eq, headerLoop_blank rest h he]
  rfl

theorem notMem_append_cr {line : Bytes} (h : LF ∉ line) : LF ∉ line ++ [CR] := by
  simp [h, show LF ≠ CR by decide]

theorem parseHeaders_crlf {line : Bytes} (rest : Bytes) (headers : HeaderMap) (h : LF ∉ line)
    (hne : line ≠ []) :
    parseHeaders ⟨line ++ CRLF ++ rest, true⟩ headers =
      parseHeaders ⟨rest, true⟩ (parseHeaderLine line headers) := by
  have := parseHeaders_line rest headers (notMem_append_cr h) (by simpa using hne)
  simpa using this

theorem parseHeaders_crlf_nil (rest : Bytes) (headers : HeaderMap) :
    parseHeaders ⟨CRLF ++ rest, true⟩ headers = (headers, ⟨rest, true⟩) :=
  parseHeaders_blank rest headers (by decide : LF ∉ [CR]) (by decide)

theorem parseRequest_cons {line : Bytes} (rest : Bytes) (h : LF ∉ line) :
    parseRequest (line ++ LF :: rest) =
      { parseRequestLine (popCr line) {} with
        headers := (parseHeaders ⟨rest, true⟩ ∅).1
        body := ((parseHeaders ⟨rest, true⟩ ∅).2.getline NUL).1.getD [] } := by
  rw [parseRequest, IStringStream.getline_line rest h]
  simp [parseRequestLine_eq]

theorem parseRequest_crlf {line : Bytes} (rest : Bytes) (h : LF ∉ line) :
    parseRequest (line ++ CRLF ++ rest) =
      { parseRequestLine line {} with
        headers := (parseHeaders ⟨rest, true⟩ ∅).1
        body := ((parseHeaders ⟨rest, true⟩ ∅).2.getline NUL).1.getD [] } := by
  have happ : line ++ CRLF ++ rest = line ++ [CR] ++ LF :: rest := by simp
  rw [happ, parseRequest_cons rest (notMem_append_cr h), popCr_append_cr]

/-- What holds of the headers so far and is kept by every header line holds of the result. -/
theorem parseHeaders_induct {P : HeaderMap → Prop}
    (hP : ∀ line hs, LF ∉ line → P hs → P (parseHeaderLine (popCr line) hs)) (iss : IStringStream)
    (headers : HeaderMap) (h : P headers) : P (parseHeaders iss headers).1 := by
  fun_induction parseHeaders iss headers with
  | case1 => exact h
  | case2 => exact h
  | case3 iss headers line iss' hg _ ih => exact ih (hP line headers (IStringStream.getline_some hg).1 h)

theorem eq_popCr (line : Bytes) : line = popCr line ∨ line = popCr line ++ [CR] := by
  rcases List.eq_nil_or_concat line with rfl | ⟨l, b, rfl⟩
  · exact .inl rfl
  · by_cases hb : b = CR
    · subst hb; simp
    · left; rw [popCr_eq_self]; simpa using hb

theorem popCr_subset (line : Bytes) : popCr line ⊆ line := by
  intro b hb
  rcases eq_popCr line with h | h <;> rw [h] <;> simp [hb]

theorem parseHeaderLine_of_notMem {line : Bytes} (headers : HeaderMap) (h : COLON ∉ line) :
    parseHeaderLine line headers = headers := by
  have hd : line.dropWhile (· != COLON) = [] :=
    List.dropWhile_eq_nil_iff.2 (IStringStream.bne_of_notMem h)
  simp [parseHeaderLine, hd]

theorem parseHeaderLine_colon {name value : Bytes} (headers : HeaderMap) (h : COLON ∉ name) :
    parseHeaderLine (name ++ COLON :: value) headers = headers.insert name (value.dropWhile isBlank) := by
  have ht := Words.takeWhile_append_cons (l := value) (IStringStream.bne_of_notMem h)
    (bne_self_eq_false COLON)
  have hd := Words.dropWhile_append_cons (l := value) (IStringStream.bne_of_notMem h)
    (bne_self_eq_false COLON)
  simp [parseHeaderLine, ht, hd]

theorem parseHeaders_field {name value : Bytes} (rest : Bytes) (headers : HeaderMap) (hc : COLON ∉ name)
    (hn : LF ∉ name) (hv : LF ∉ value) :
    parseHeaders ⟨name ++ COLON :: value ++ CRLF ++ rest, true⟩ headers =
      parseHeaders ⟨rest, true⟩ (headers.insert name (value.dropWhile isBlank)) := by
  have hcolon : LF ≠ COLON := by decide
  have hline : LF ∉ name ++ COLON :: value := by
    rw [List.mem_append, List.mem_cons, not_or, not_or]
    exact ⟨hn, hcolon, hv⟩
  rw [parseHeaders_crlf rest headers hline (by simp), parseHeaderLine_colon headers hc]

/-- The blanks after the colon are all that is skipped. -/
theorem dropWhile_blanks {blanks value : Bytes} (hb : ∀ b ∈ blanks, isBlank b = true)
    (hv : ∀ b, value.head? = some b → isBlank b = false) : (blanks ++ value).dropWhile isBlank = value := by
  rw [List.dropWhile_append_of_pos hb]
  cases value with
  | nil => rfl
  | cons b value => exact List.dropWhile_cons_of_neg (by simp [hv b rfl])

theorem isBlank_of_head?_dropWhile {value : Bytes} {b : UInt8} (hb : (value.dropWhile isBlank).head? = some b) :
    isBlank b = false := by
  have := List.head?_dropWhile_not isBlank value
  rw [hb] at this
  simpa using this

theorem dropWhile_isBlank {value : Bytes} (hv : ∀ b, value.head? = some b → isBlank b = false) :
    (SP :: value).dropWhile isBlank = value := by
  have hblank : ∀ b ∈ [SP], isBlank b = true := List.forall_mem_singleton.2 rfl
  exact dropWhile_blanks hblank hv

theorem parseHeaderLine_cases (line : Bytes) (headers : HeaderMap) :
    (COLON ∉ line ∧ parseHeaderLine line headers = headers) ∨
      ∃ name value, line = name ++ COLON :: value ∧ COLON ∉ name ∧
        parseHeaderLine line headers = headers.insert name (value.dropWhile isBlank) := by
  by_cases h : COLON ∈ line
  · obtain ⟨name, value, rfl, hn⟩ := List.eq_append_cons_of_mem h
    exact .inr ⟨name, value, rfl, hn, parseHeaderLine_colon headers hn⟩
  · exact .inl ⟨h, parseHeaderLine_of_notMem headers h⟩

end MarketBridge
