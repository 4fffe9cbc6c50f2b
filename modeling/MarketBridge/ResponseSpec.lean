import MarketBridge.RequestSpec
import MarketBridge.HttpSession
import MarketBridge.Lib.Lines
import Mathlib.Data.List.Nodup

/-!
# Reading back the responses the server generates

A reader of `HTTP/1.1` responses, written against the text only: the head ends at the first empty line, its
lines are a status line and header fields. `Delimited s r`: the reader finds `r` in `s`, and the one
`Content-Length` line of `s` tells the length of the body.
-/

namespace MarketBridge

open Lines

/-! ### The reader -/

def isDigit (b : UInt8) : Bool := 48 ≤ b && b ≤ 57

/-- The number a non-empty block of decimal digits denotes. -/
def decimal (s : Bytes) : Option Nat :=
  if s ≠ [] ∧ s.all isDigit then some (s.foldl (fun n b => 10 * n + (b.toNat - 48)) 0) else none

def toLower (b : UInt8) : UInt8 := if 65 ≤ b && b ≤ 90 then b + 32 else b

/-- The name of the field on a header line. -/
def fieldName (line : Bytes) : Bytes := line.takeWhile (· != COLON)

def isContentLength (name : Bytes) : Bool := name.map toLower == lit "content-length"

/-- `code reason`. -/
def decodeStatus (s : Bytes) : Option (Int × Bytes) :=
  match s.dropWhile (· != SP) with
  | [] => none
  | _ :: reason => (decimal (s.takeWhile (· != SP))).map fun (code : Nat) => ((code : Int), reason)

def decodeStatusLine (line : Bytes) : Option (Int × Bytes) :=
  if lit "HTTP/1.1 " <+: line then decodeStatus (line.drop (lit "HTTP/1.1 ").length) else none

/-- A header line `name: value`. -/
def decodeHeaderLine (line : Bytes) : Option (Bytes × Bytes) :=
  match line.dropWhile (· != COLON) with
  | _ :: b :: value => if b = SP then some (fieldName line, value) else none
  | _ => none

def decodeHead : List Bytes → Option (Int × Bytes × HeaderMap)
  | [] => none
  | statusLine :: lines =>
    match decodeStatusLine statusLine, lines.mapM decodeHeaderLine with
    | some (code, reason), some fields => some (code, reason, (∅ : HeaderMap).insertMany fields)
    | _, _ => none

def Delimited (s : Bytes) (r : HttpResponse) : Prop :=
  ∃ head, splitHead CR LF s = some (head, r.body) ∧
    (∃ value, (splitLines CR LF head).filter (isContentLength ∘ fieldName) = [lit "Content-Length: " ++ value] ∧
      decimal value = some r.body.length) ∧
    decodeHead (splitLines CR LF head) = some (r.statusCode, r.reason, r.headers)

/-! ### Numbers -/

theorem toNat_toUInt8_of_isDigit {c : Char} (hc : c.isDigit = true) :
    c.toNat.toUInt8.toNat = c.toNat ∧ 48 ≤ c.toNat ∧ c.toNat ≤ 57 := by
  have hb : 48 ≤ c.toNat ∧ c.toNat ≤ 57 := Char.isDigit_iff_toNat.1 hc
  refine ⟨?_, hb⟩
  rw [Nat.toUInt8_eq, UInt8.toNat_ofNat']
  omega

theorem foldl_digits {cs : List Char} (h : ∀ c ∈ cs, c.isDigit = true) (n : Nat) :
    (cs.map fun c => c.toNat.toUInt8).foldl (fun n b => 10 * n + (b.toNat - 48)) n =
      Nat.ofDigitChars 10 cs n := by
  induction cs generalizing n with
  | nil => rfl
  | cons c cs ih =>
    obtain ⟨hc, hcs⟩ := List.forall_mem_cons.1 h
    have hv := (toNat_toUInt8_of_isDigit hc).1
    rw [List.map_cons, List.foldl_cons, Nat.ofDigitChars_cons, ih hcs, hv]
    rfl

theorem isDigit_toUInt8 {c : Char} (hc : c.isDigit = true) : isDigit c.toNat.toUInt8 = true := by
  obtain ⟨hv, hb⟩ := toNat_toUInt8_of_isDigit hc
  simpa [isDigit, UInt8.le_iff_toNat_le, hv] using hb

/-- A printed number is read back. -/
theorem decimal_lit (n : Nat) : decimal (lit (toString n)) = some n := by
  have hl : lit (toString n) = (Nat.toDigits 10 n).map fun c => c.toNat.toUInt8 := by
    rw [lit, show (toString n).toList = Nat.toDigits 10 n from Nat.toList_repr]
  have hd : ∀ c ∈ Nat.toDigits 10 n, c.isDigit = true := fun c hc =>
    Nat.isDigit_of_mem_toDigits (by decide) (by decide) hc
  have hall : ((Nat.toDigits 10 n).map fun c => c.toNat.toUInt8).all isDigit = true := by
    rw [List.all_map, List.all_eq_true]
    exact fun c hc => isDigit_toUInt8 (hd c hc)
  have hne : ((Nat.toDigits 10 n).map fun c => c.toNat.toUInt8) ≠ [] := by
    simp [Nat.toDigits_ne_nil]
  rw [hl, decimal, if_pos ⟨hne, hall⟩, foldl_digits hd, Nat.ofDigitChars_ten_toDigits]

theorem lit_toString_digits (n : Nat) : (lit (toString n)).all isDigit = true := by
  have := decimal_lit n
  unfold decimal at this
  split at this
  · rename_i h
    exact h.2
  · cases this

/-! ### What is printed is read back -/

abbrev OneLine (s : Bytes) : Prop := CR ∉ s ∧ LF ∉ s

/-- A field that can stand in a head, next to the `Content-Length` of the response. -/
structure FieldOk (name value : Bytes) : Prop where
  nameLine : OneLine name
  colon : COLON ∉ name
  valueLine : OneLine value
  contentLength : isContentLength name = true → name = lit "Content-Length"

def FieldsOk (headers : HeaderMap) : Prop :=
  ∀ name value : Bytes, headers[name]? = some value → FieldOk name value

structure HttpResponse.WellFormed (r : HttpResponse) : Prop where
  statusCode : 0 ≤ r.statusCode
  reason : OneLine r.reason
  headers : FieldsOk r.headers
  contentLength : r.headers[lit "Content-Length"]? = some (lit (ToString.toString r.body.length))

def HttpResponse.statusLine (r : HttpResponse) : Bytes :=
  lit "HTTP/1.1 " ++ lit (ToString.toString r.statusCode) ++ [SP] ++ r.reason

def HttpResponse.lines (r : HttpResponse) : List Bytes := r.statusLine :: r.headers.toList.map headerLine

theorem digits_notMem {b : UInt8} (hb : isDigit b = false) (n : Nat) : b ∉ lit (ToString.toString n) := by
  intro h
  have := List.all_eq_true.1 (lit_toString_digits n) b h
  rw [hb] at this
  cases this

theorem fieldName_headerLine {name value : Bytes} (h : COLON ∉ name) :
    fieldName (headerLine (name, value)) = name := by
  rw [show headerLine (name, value) = name ++ COLON :: SP :: value by simp [headerLine, lit]]
  exact Words.takeWhile_append_cons (IStringStream.bne_of_notMem h) (bne_self_eq_false COLON)

theorem decodeHeaderLine_printed {name value : Bytes} (h : COLON ∉ name) :
    decodeHeaderLine (headerLine (name, value)) = some (name, value) := by
  have hn : fieldName (headerLine (name, value)) = name := fieldName_headerLine h
  have hd : (headerLine (name, value)).dropWhile (· != COLON) = COLON :: SP :: value := by
    rw [show headerLine (name, value) = name ++ COLON :: SP :: value by simp [headerLine, lit]]
    exact Words.dropWhile_append_cons (IStringStream.bne_of_notMem h) (bne_self_eq_false COLON)
  rw [decodeHeaderLine, hd]
  simp [hn]

theorem mapM_decodeHeaderLine {l : List (Bytes × Bytes)} (hl : ∀ kv ∈ l, COLON ∉ kv.1) :
    (l.map headerLine).mapM decodeHeaderLine = some l := by
  induction l with
  | nil => rfl
  | cons kv l ih =>
    obtain ⟨hkv, hl⟩ := List.forall_mem_cons.1 hl
    rw [List.map_cons, List.mapM_cons, ih hl, decodeHeaderLine_printed hkv]
    rfl

theorem decodeStatusLine_printed (n : Nat) (reason : Bytes) :
    decodeStatusLine (lit "HTTP/1.1 " ++ lit (ToString.toString n) ++ [SP] ++ reason) = some ((n : Int), reason) := by
  have hs : ∀ b ∈ lit (ToString.toString n), (b != SP) = true :=
    IStringStream.bne_of_notMem (digits_notMem (by decide) n)
  have happ : lit "HTTP/1.1 " ++ lit (ToString.toString n) ++ [SP] ++ reason =
      lit "HTTP/1.1 " ++ (lit (ToString.toString n) ++ SP :: reason) := by simp
  rw [happ, decodeStatusLine, if_pos (List.prefix_append _ _), List.drop_left, decodeStatus,
    Words.dropWhile_append_cons hs (bne_self_eq_false SP), Words.takeWhile_append_cons hs (bne_self_eq_false SP),
    decimal_lit]
  rfl

namespace HttpResponse.WellFormed

variable {r : HttpResponse} (h : r.WellFormed)
include h

theorem of_mem_toList {kv : Bytes × Bytes} (hkv : kv ∈ r.headers.toList) : FieldOk kv.1 kv.2 :=
  h.headers kv.1 kv.2 (Std.ExtTreeMap.mem_toList_iff_getElem?_eq_some.1 hkv)

theorem statusLine_eq : ∃ n : Nat, r.statusCode = n ∧
    r.statusLine = lit "HTTP/1.1 " ++ lit (ToString.toString n) ++ [SP] ++ r.reason := by
  obtain ⟨n, hn⟩ := Int.eq_ofNat_of_zero_le h.statusCode
  refine ⟨n, hn, ?_⟩
  unfold statusLine
  rw [hn]; rfl

theorem lines_ok : ∀ l ∈ r.lines, l ≠ [] ∧ CR ∉ l := by
  intro l hl
  rcases List.mem_cons.1 hl with rfl | hl
  · obtain ⟨n, -, he⟩ := h.statusLine_eq
    have h₁ : CR ∉ lit "HTTP/1.1 " := by decide
    have h₂ : CR ∉ [SP] := by decide
    rw [he]
    refine ⟨by simp [lit], ?_⟩
    simp only [List.mem_append, not_or]
    exact ⟨⟨⟨h₁, digits_notMem (b := CR) (by decide) n⟩, h₂⟩, h.reason.1⟩
  · obtain ⟨kv, hkv, rfl⟩ := List.mem_map.1 hl
    have hf := h.of_mem_toList hkv
    have hsep : CR ∉ lit ": " := by decide
    refine ⟨by simp [headerLine, lit], ?_⟩
    simp only [headerLine, List.mem_append, not_or]
    exact ⟨⟨hf.nameLine.1, hsep⟩, hf.valueLine.1⟩

theorem toString_eq : r.toString = unlines CR LF r.lines ++ CR :: LF :: r.body := by
  have hm : lit "Content-Length" ∈ r.headers :=
    Std.ExtTreeMap.mem_iff_isSome_getElem?.2 (by rw [h.contentLength]; rfl)
  rw [HttpResponse.toString, if_pos hm, headers_toString_eq, lines, unlines_cons, unlines, List.flatMap_map]
  simp [statusLine]

/-- The header map has the one line `Content-Length: n`, and the status line is none. -/
theorem contentLengthLines : r.lines.filter (isContentLength ∘ fieldName) =
    [lit "Content-Length: " ++ lit (ToString.toString r.body.length)] := by
  have hs : (isContentLength ∘ fieldName) r.statusLine = false := by
    obtain ⟨n, -, he⟩ := h.statusLine_eq
    rw [Function.comp_apply, he, show lit "HTTP/1.1 " = (72 : UInt8) :: lit "TTP/1.1 " by decide, fieldName,
      List.cons_append, List.cons_append, List.cons_append, List.takeWhile_cons_of_pos (by decide)]
    simp [isContentLength, lit, toLower]
  have hmem : ∀ kv, kv ∈ r.headers.toList.filter (isContentLength ∘ fieldName ∘ headerLine) ↔
      kv = (lit "Content-Length", lit (ToString.toString r.body.length)) := by
    rintro ⟨name, value⟩
    rw [List.mem_filter, Std.ExtTreeMap.mem_toList_iff_getElem?_eq_some]
    constructor
    · rintro ⟨hg, hn⟩
      have hf := h.headers name value hg
      rw [Function.comp_apply, Function.comp_apply, fieldName_headerLine hf.colon] at hn
      obtain rfl := hf.contentLength hn
      rw [h.contentLength] at hg
      rw [Option.some.inj hg]
    · rintro ⟨⟩
      refine ⟨h.contentLength, ?_⟩
      rw [Function.comp_apply, Function.comp_apply, fieldName_headerLine (by decide)]
      decide
  have hnodup : r.headers.toList.Nodup := by
    refine (Std.ExtTreeMap.distinct_keys_toList (t := r.headers)).imp fun {a b} hab e => ?_
    rw [e] at hab
    exact hab Std.ReflCmp.compare_self
  have hfilter : r.headers.toList.filter (isContentLength ∘ fieldName ∘ headerLine) =
      [(lit "Content-Length", lit (ToString.toString r.body.length))] :=
    List.perm_singleton.1 ((List.perm_ext_iff_of_nodup (hnodup.filter _) (List.nodup_singleton _)).2 fun kv => by
      rw [hmem, List.mem_singleton])
  rw [lines, List.filter_cons_of_neg (by rw [hs]; decide), List.filter_map, Function.comp_assoc, hfilter]
  rfl

theorem decodeHead_lines : decodeHead r.lines = some (r.statusCode, r.reason, r.headers) := by
  obtain ⟨n, hn, he⟩ := h.statusLine_eq
  have hfields := mapM_decodeHeaderLine fun _ hkv => (h.of_mem_toList hkv).colon
  rw [lines, decodeHead, he, decodeStatusLine_printed, hfields, hn]
  simp only [insertMany_toList]

theorem delimited : Delimited r.toString r := by
  have hlines : splitLines CR LF (List.intercalate [CR, LF] r.lines) = r.lines :=
    splitLines_intercalate fun l hl => (h.lines_ok l hl).2
  refine ⟨List.intercalate [CR, LF] r.lines, ?_, ?_⟩
  · rw [h.toString_eq]
    exact splitHead_unlines (by decide) h.lines_ok r.body
  · rw [hlines]
    exact ⟨⟨_, h.contentLengthLines, decimal_lit _⟩, h.decodeHead_lines⟩

end HttpResponse.WellFormed

/-! ### The generated responses -/

theorem FieldsOk.insert {headers : HeaderMap} (h : FieldsOk headers) {name value : Bytes}
    (hf : FieldOk name value) : FieldsOk (headers.insert name value) := by
  intro k v hk
  rw [HeaderMap.getElem?_insert] at hk
  split at hk
  · rename_i hc
    subst hc
    obtain rfl : value = v := Option.some.inj hk
    exact hf
  · exact h k v hk

theorem fieldsOk_empty : FieldsOk ∅ := fun name value h => by simp at h

theorem fieldOk_contentLength (n : Nat) : FieldOk (lit "Content-Length") (lit (toString n)) where
  nameLine := ⟨by decide, by decide⟩
  colon := by decide
  valueLine := ⟨digits_notMem (by decide) n, digits_notMem (by decide) n⟩
  contentLength := fun _ => rfl

/-- A field with fixed texts, which name no length. -/
theorem fieldOk_of_decide {name value : Bytes} (h : CR ∉ name ∧ LF ∉ name ∧ COLON ∉ name ∧ CR ∉ value ∧
    LF ∉ value ∧ isContentLength name = false) : FieldOk name value where
  nameLine := ⟨h.1, h.2.1⟩
  colon := h.2.2.1
  valueLine := ⟨h.2.2.2.1, h.2.2.2.2.1⟩
  contentLength := fun hl => by rw [h.2.2.2.2.2] at hl; cases hl

theorem HttpResponse.WellFormed.insert {r : HttpResponse} (h : r.WellFormed) {name value : Bytes}
    (hf : FieldOk name value) (hn : isContentLength name = false) :
    ({ r with headers := r.headers.insert name value } : HttpResponse).WellFormed where
  statusCode := h.statusCode
  reason := h.reason
  headers := h.headers.insert hf
  contentLength := by
    have hne : name ≠ lit "Content-Length" := by
      intro hc
      rw [hc] at hn
      revert hn; decide
    rw [HeaderMap.getElem?_insert, if_neg hne]
    exact h.contentLength

/-- The response before `Connection` is added. -/
theorem wellFormed_contentLength {code : Int} {reason : Bytes} {headers : HeaderMap} (body : Bytes)
    (hcode : 0 ≤ code) (hreason : OneLine reason) (hh : FieldsOk headers) :
    ({ statusCode := code
       reason
       headers := headers.insert (lit "Content-Length") (lit (toString body.length))
       body } : HttpResponse).WellFormed where
  statusCode := hcode
  reason := hreason
  headers := hh.insert (fieldOk_contentLength _)
  contentLength := by rw [Std.ExtTreeMap.getElem?_insert_self]

/-- Both branches insert the length of the body, the empty one as a literal. -/
theorem generateHttpResponse_keepAlive (statusCode : HTTPResponseCodes) (reason body : Bytes)
    (contentType : HTTPResponseContentType) :
    generateHttpResponse statusCode reason body contentType .KeepAlive =
      { statusCode := statusCode.toInt
        reason
        headers := (if body = [] then (∅ : HeaderMap) else (∅ : HeaderMap).insert (lit "Content-Type")
          (if contentType = .ApplicationJson then lit "application/json" else lit "text/plain")).insert
          (lit "Content-Length") (lit (toString body.length))
        body } := by
  have hk : HTTPResponseConnection.KeepAlive ≠ .Close := by decide
  have hzero : lit "0" = lit (toString ([] : Bytes).length) := by decide
  unfold generateHttpResponse
  by_cases hb : body = []
  · subst hb
    simp only [ne_eq, not_true_eq_false, hk, if_false, if_true, hzero]
  · simp only [ne_eq, hb, not_false_eq_true, hk, if_false, if_true]

theorem generateHttpResponse_wellFormed (statusCode : HTTPResponseCodes) {reason : Bytes}
    (hreason : OneLine reason) (body : Bytes) (contentType : HTTPResponseContentType)
    (connection : HTTPResponseConnection) :
    (generateHttpResponse statusCode reason body contentType connection).WellFormed := by
  have hcode : 0 ≤ statusCode.toInt := by cases statusCode <;> decide
  have htype : FieldOk (lit "Content-Type")
      (if contentType = .ApplicationJson then lit "application/json" else lit "text/plain") := by
    cases contentType <;> exact fieldOk_of_decide (by decide)
  have hclose : FieldOk (lit "Connection") (lit "close") := fieldOk_of_decide (by decide)
  have hbase : (generateHttpResponse statusCode reason body contentType .KeepAlive).WellFormed := by
    rw [generateHttpResponse_keepAlive]
    refine wellFormed_contentLength body hcode hreason ?_
    split
    · exact fieldsOk_empty
    · exact fieldsOk_empty.insert htype
  cases connection with
  | KeepAlive => exact hbase
  | Close => exact hbase.insert hclose (by decide)

end MarketBridge
