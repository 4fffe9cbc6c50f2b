import MarketBridge.Forward

/-!
# The parsed requests and their printed form

`HttpRequest.WellFormed` describes the requests `parseRequest` returns. Both halves meet there: every
result is well formed, and what is well formed is read back from its printed form.
-/

namespace MarketBridge

structure HttpRequest.WellFormed (r : HttpRequest) : Prop where
  method : NoSpace r.method
  target : NoSpace r.target
  version : NoSpace r.version
  target_nil : r.method = [] → r.target = []
  version_nil : r.target = [] → r.version = []
  headers : HeadersOk r.headers
  body : NUL ∉ r.body

/-! ### What is parsed is well formed -/

theorem getD_word_eq_nil {l : Bytes} {i : Nat} (h : ((Words.words isspace l)[i]?).getD [] = []) :
    ((Words.words isspace l)[i + 1]?).getD [] = [] := by
  have hi : (Words.words isspace l)[i]? = none := by
    cases hw : (Words.words isspace l)[i]? with
    | none => rfl
    | some w =>
      rw [hw] at h
      exact absurd h (Words.of_mem_words (List.mem_of_getElem? hw)).1
  have hlen : (Words.words isspace l).length ≤ i + 1 := by
    have := List.getElem?_eq_none_iff.1 hi
    omega
  rw [List.getElem?_eq_none hlen]
  rfl

theorem parseRequest_body_nul (raw : Bytes) : NUL ∉ (parseRequest raw).body := by
  unfold parseRequest
  split
  · exact List.not_mem_nil
  · rename_i line iss hg
    show NUL ∉ (((parseHeaders iss _).2.getline NUL).1).getD []
    rcases hb : (parseHeaders iss (parseRequestLine (popCr line) {}).headers).2.getline NUL with ⟨_ | body, _⟩
    · exact List.not_mem_nil
    · exact (IStringStream.getline_some hb).1

theorem parseRequest_wellFormed (raw : Bytes) : (parseRequest raw).WellFormed := by
  obtain ⟨hm, ht, hv⟩ := parseRequest_line raw
  refine ⟨?_, ?_, ?_, fun h => ?_, fun h => ?_, parseRequest_headersOk raw, parseRequest_body_nul raw⟩
  · rw [hm]; exact noSpace_word 0
  · rw [ht]; exact noSpace_word 1
  · rw [hv]; exact noSpace_word 2
  · rw [hm] at h
    rw [ht]; exact getD_word_eq_nil h
  · rw [ht] at h
    rw [hv]; exact getD_word_eq_nil h

/-! ### What is well formed is read back -/

theorem words_append_blank {w l : Bytes} (hw : NoSpace w) :
    Words.words isspace (w ++ [SP] ++ l) = (if w = [] then [] else [w]) ++ Words.words isspace l := by
  have hsp : isspace SP = true := by decide
  rw [List.append_assoc]
  split
  · subst w; exact Words.words_cons_sep hsp
  · rename_i hne
    exact Words.words_append_sep hw hne hsp

theorem words_noSpace {w : Bytes} (hw : NoSpace w) :
    Words.words isspace w = if w = [] then [] else [w] := by
  split
  · subst w; exact Words.words_nil
  · rename_i hne
    exact Words.words_of_forall hw hne

/-- The empty words of a request line come last, so the others keep their places. -/
theorem parseRequestLine_printed {r : HttpRequest} (h : r.WellFormed) :
    parseRequestLine (r.method ++ [SP] ++ r.target ++ [SP] ++ r.version) {} =
      { method := r.method, target := r.target, version := r.version } := by
  have hw : Words.words isspace (r.method ++ [SP] ++ r.target ++ [SP] ++ r.version) =
      (if r.method = [] then [] else [r.method]) ++ ((if r.target = [] then [] else [r.target]) ++
        if r.version = [] then [] else [r.version]) := by
    rw [show r.method ++ [SP] ++ r.target ++ [SP] ++ r.version =
      r.method ++ [SP] ++ (r.target ++ [SP] ++ r.version) by simp, words_append_blank h.method,
      words_append_blank h.target, words_noSpace h.version]
  rw [parseRequestLine_eq, hw]
  by_cases hm : r.method = []
  · have ht := h.target_nil hm
    have hv := h.version_nil ht
    simp [hm, ht, hv]
  by_cases ht : r.target = []
  · have hv := h.version_nil ht
    simp [hm, ht, hv]
  by_cases hv : r.version = []
  · simp [hm, ht, hv]
  · simp [hm, ht, hv]

/-- One line of a printed header map, without its line end. -/
def headerLine (kv : Bytes × Bytes) : Bytes := kv.1 ++ lit ": " ++ kv.2

theorem headers_toString_eq (headers : HeaderMap) :
    headers.toString = headers.toList.flatMap fun kv => headerLine kv ++ CRLF := rfl

theorem parseHeaders_printed {l : List (Bytes × Bytes)} (rest : Bytes)
    (hl : ∀ kv ∈ l, COLON ∉ kv.1 ∧ LF ∉ kv.1 ∧ LF ∉ kv.2 ∧ ∀ b, kv.2.head? = some b → isBlank b = false)
    (headers : HeaderMap) :
    parseHeaders ⟨(l.flatMap fun kv => headerLine kv ++ CRLF) ++ CRLF ++ rest, true⟩ headers =
      (headers.insertMany l, ⟨rest, true⟩) := by
  induction l generalizing headers with
  | nil =>
    rw [Std.ExtTreeMap.insertMany_nil]
    exact parseHeaders_crlf_nil rest headers
  | cons kv l ih =>
    obtain ⟨name, value⟩ := kv
    obtain ⟨⟨hc, hn, hv, hb⟩, hl⟩ := List.forall_mem_cons.1 hl
    have hlf : LF ∉ SP :: value := by
      rw [List.mem_cons, not_or]
      exact ⟨by decide, hv⟩
    have happ : (((name, value) :: l).flatMap fun kv => headerLine kv ++ CRLF) ++ CRLF ++ rest =
        name ++ COLON :: SP :: value ++ CRLF ++ ((l.flatMap fun kv => headerLine kv ++ CRLF) ++ CRLF ++ rest) := by
      simp [headerLine, lit]
    rw [happ, parseHeaders_field _ _ hc hn hlf, dropWhile_isBlank hb, ih hl,
      Std.ExtTreeMap.insertMany_cons]

theorem insertMany_toList (headers : HeaderMap) : (∅ : HeaderMap).insertMany headers.toList = headers := by
  refine Std.ExtTreeMap.ext_getElem? fun k => ?_
  cases hk : headers[k]? with
  | none =>
    rw [Std.ExtTreeMap.getElem?_insertMany_list_of_contains_eq_false, Std.ExtTreeMap.getElem?_empty]
    rw [Std.ExtTreeMap.map_fst_toList_eq_keys]
    simpa using hk
  | some v =>
    exact Std.ExtTreeMap.getElem?_insertMany_list_of_mem (k := k) Std.ReflCmp.compare_self
      Std.ExtTreeMap.distinct_keys_toList (Std.ExtTreeMap.mem_toList_iff_getElem?_eq_some.2 hk)

theorem getline_nul_printed {body : Bytes} (h : NUL ∉ body) :
    ((IStringStream.getline NUL ⟨body, true⟩).1).getD [] = body := by
  rcases hg : IStringStream.getline NUL ⟨body, true⟩ with ⟨_ | line, iss⟩
  · obtain h | h := IStringStream.getline_none hg
    · cases h
    · exact h.symm
  · obtain ⟨-, -, ⟨hr, -⟩ | ⟨hr, -⟩⟩ := IStringStream.getline_some hg
    · exact absurd (show NUL ∈ body by rw [show body = line ++ NUL :: iss.rest from hr]; simp) h
    · exact hr.symm

theorem parseRequest_printed {r : HttpRequest} (h : r.WellFormed) : parseRequest r.toString = r := by
  have hline : LF ∉ r.method ++ [SP] ++ r.target ++ [SP] ++ r.version := by
    have hsp : LF ∉ [SP] := by decide
    simp only [List.mem_append, not_or]
    exact ⟨⟨⟨⟨h.method.lf, hsp⟩, h.target.lf⟩, hsp⟩, h.version.lf⟩
  have hheaders : parseHeaders ⟨r.headers.toString ++ CRLF ++ r.body, true⟩ ∅ =
      (r.headers, ⟨r.body, true⟩) := by
    have := parseHeaders_printed r.body (l := r.headers.toList)
      (fun kv hkv => h.headers kv.1 kv.2 (Std.ExtTreeMap.mem_toList_iff_getElem?_eq_some.1 hkv)) ∅
    rwa [insertMany_toList] at this
  rw [show r.toString = r.method ++ [SP] ++ r.target ++ [SP] ++ r.version ++ CRLF ++
    (r.headers.toString ++ CRLF ++ r.body) by simp [HttpRequest.toString], parseRequest_crlf _ hline,
    parseRequestLine_printed h, hheaders, getline_nul_printed h.body]

/-- Parsing and printing are inverse on the well-formed requests, which are the parsed ones. -/
theorem parseRequest_roundtrip :
    (∀ raw, (parseRequest raw).WellFormed) ∧ (∀ r : HttpRequest, r.WellFormed → parseRequest r.toString = r) ∧
      ∀ raw, parseRequest (parseRequest raw).toString = parseRequest raw :=
  ⟨parseRequest_wellFormed, fun _ h => parseRequest_printed h,
    fun raw => parseRequest_printed (parseRequest_wellFormed raw)⟩

/-- A request without a method, with an unnamed header whose value ends in CR and a blank line in its
body. -/
def oddRequest : HttpRequest :=
  { headers := (∅ : HeaderMap).insert [] [CR], body := lit "a\r\n\r\nb" }

theorem parseRequest_roundtrip_odd : parseRequest oddRequest.toString = oddRequest := by
  refine parseRequest_roundtrip.2.1 oddRequest
    ⟨List.forall_mem_nil _, List.forall_mem_nil _, List.forall_mem_nil _, fun _ => rfl, fun _ => rfl, ?_,
      by decide⟩
  intro name value h
  change ((∅ : HeaderMap).insert [] [CR])[name]? = some value at h
  rw [HeaderMap.getElem?_insert] at h
  split at h
  · rename_i hc
    subst hc
    obtain rfl : [CR] = value := by simpa using h
    refine ⟨List.not_mem_nil, List.not_mem_nil, by decide, fun b hb => ?_⟩
    rw [← Option.some.inj hb]
    decide
  · simp at h

end MarketBridge
