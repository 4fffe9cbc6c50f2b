import MarketBridge.HeaderBlock
import MarketBridge.RequestSpec
import Mathlib.Data.List.Nodup
import Mathlib.Data.List.Perm.Basic

/-!
# What `parse_request` makes of a header block

The first half settles where the reader and the parser agree on the end of a block: where no empty line
comes before the final one. The second half reads a block of the grammar: three words, the last value of
each name, and the body.
-/

namespace MarketBridge

open Ended

/-! ### Where the header block ends -/

/-- The lines of a block between the request line and the final empty line, without their CR. -/
def innerLines (raw : Bytes) : List Bytes := ((raw.splitOn LF).tail.dropLast.dropLast).map popCr

/-- The lines that reach the header loop of `parse_request`. -/
def processedLines (raw : Bytes) : List Bytes := (headerLoop (IStringStream.getline LF ⟨raw, true⟩).2).1

theorem parseRequest_headers (raw : Bytes) :
    (parseRequest raw).headers = (processedLines raw).foldl (fun hs line => parseHeaderLine line hs) ∅ := by
  unfold parseRequest processedLines
  split
  · rename_i iss hg
    have hiss : iss = ⟨raw, false⟩ := by
      have h := hg
      rcases IStringStream.getline_none hg with hb | rfl
      · cases hb
      · rw [IStringStream.getline_nil] at h
        exact (Prod.mk.inj h).2.symm
    rw [hg, hiss, headerLoop]
    simp [IStringStream.getline]
  · rename_i line iss hg
    rw [hg]
    simp [parseRequestLine_eq, parseHeaders_eq]

/-- The parser ends the header block where the reader does. -/
def ReadsWhole (raw : Bytes) : Prop :=
  (parseRequest raw).body = [] ∧ processedLines raw = innerLines raw

section

variable {first : Bytes} {inner : List Bytes}

theorem innerLines_eq (hf : LF ∉ first) (hinner : ∀ l ∈ inner, LF ∉ l) :
    innerLines (first ++ LF :: (ended LF inner ++ CRLF)) = inner.map popCr := by
  have hls : ∀ l ∈ first :: (inner ++ [[CR]]), LF ∉ l := by
    refine List.forall_mem_cons.2 ⟨hf, fun l hl => ?_⟩
    rcases List.mem_append.1 hl with hl | hl
    · exact hinner l hl
    · rw [List.mem_singleton.1 hl]; decide
  have htext : first ++ LF :: (ended LF inner ++ CRLF) = ended LF (first :: (inner ++ [[CR]])) := by
    simp [ended_append]
  rw [innerLines, htext, splitOn_ended hls]
  simp

theorem processedLines_cons (rest : Bytes) (hf : LF ∉ first) :
    processedLines (first ++ LF :: rest) = (headerLoop ⟨rest, true⟩).1 := by
  rw [processedLines, IStringStream.getline_line rest hf]

theorem readsWhole_of_nonblank (hf : LF ∉ first) (hinner : ∀ l ∈ inner, LF ∉ l ∧ popCr l ≠ []) :
    ReadsWhole (first ++ LF :: (ended LF inner ++ CRLF)) := by
  have hloop : headerLoop ⟨ended LF inner ++ CRLF, true⟩ = (inner.map popCr, ⟨[], true⟩) :=
    headerLoop_ended [] hinner (by decide : LF ∉ [CR]) (by decide)
  refine ⟨?_, ?_⟩
  · rw [parseRequest_cons _ hf, parseHeaders_eq, hloop]
    simp
  · rw [processedLines_cons _ hf, hloop, innerLines_eq hf fun l hl => (hinner l hl).1]

/-- The lines after a blank one do not reach the loop. -/
theorem not_readsWhole_of_blank {blank : Bytes} (hf : LF ∉ first) (hinner : ∀ l ∈ inner, LF ∉ l)
    (hm : blank ∈ inner) (hb : popCr blank = []) :
    ¬ ReadsWhole (first ++ LF :: (ended LF inner ++ CRLF)) := by
  rintro ⟨-, h⟩
  rw [processedLines_cons _ hf, innerLines_eq hf hinner] at h
  have hmem : [] ∈ (headerLoop ⟨ended LF inner ++ CRLF, true⟩).1 := by
    rw [h, List.mem_map]
    exact ⟨blank, hm, hb⟩
  exact headerLoop_ne_nil _ [] hmem rfl

theorem popCr_eq_nil {l : Bytes} : popCr l = [] ↔ l = [] ∨ l = [CR] := by
  constructor
  · intro h
    have := eq_popCr l
    rwa [h] at this
  · rintro (rfl | rfl)
    · rfl
    · rfl

theorem infix_lf_lf (hf : LF ∉ first) (hinner : ∀ l ∈ inner, LF ∉ l) :
    [LF, LF] <:+: first ++ LF :: (ended LF inner ++ CRLF) ↔ [] ∈ inner := by
  have hall : ∀ l ∈ inner ++ [[CR]], LF ∉ l :=
    List.forall_mem_append.2 ⟨hinner, List.forall_mem_singleton.2 (by decide)⟩
  have htext : ended LF inner ++ CRLF = ended LF (inner ++ [[CR]]) := by simp [ended_append]
  have hmem := mem_ended_iff hall (List.not_mem_nil (a := LF))
  rw [htext, infix_append_iff hf]
  refine hmem.symm.trans ?_
  simp

theorem infix_lf_cr_lf (hf : LF ∉ first) (hinner : ∀ l ∈ inner, LF ∉ l) :
    [LF, CR, LF] <:+: (first ++ LF :: (ended LF inner ++ CRLF)).dropLast ↔ [CR] ∈ inner := by
  have htext : first ++ LF :: (ended LF inner ++ CRLF) = first ++ (LF :: ended LF inner ++ [CR]) ++ [LF] := by
    simp
  -- the CR that is left of the final empty line ends no line
  have hlast : ¬ [LF, CR, LF] <:+ LF :: ended LF inner ++ [CR] := by
    intro h
    have hne : LF ≠ CR := by decide
    exact hne (by simpa using h.getLast (by simp))
  rw [htext, List.dropLast_concat, infix_append_iff hf, List.infix_concat_iff, or_iff_right hlast]
  exact (mem_ended_iff hinner (by decide : LF ∉ [CR])).symm

/-- A blank line stands where an LF is followed by LF or by CRLF. -/
theorem nonblank_iff (hf : LF ∉ first) (hinner : ∀ l ∈ inner, LF ∉ l) :
    (∀ l ∈ inner, popCr l ≠ []) ↔
      ¬ [LF, LF] <:+: first ++ LF :: (ended LF inner ++ CRLF) ∧
        ¬ [LF, CR, LF] <:+: (first ++ LF :: (ended LF inner ++ CRLF)).dropLast := by
  rw [infix_lf_lf hf hinner, infix_lf_cr_lf hf hinner]
  constructor
  · intro h
    exact ⟨fun hm => h _ hm rfl, fun hm => h _ hm rfl⟩
  · rintro ⟨h₁, h₂⟩ l hl he
    rcases popCr_eq_nil.1 he with rfl | rfl
    · exact h₁ hl
    · exact h₂ hl

end

/-- The parser ends the block where the reader does exactly when no LF before the final empty line is
followed by another line end. -/
theorem readsWhole_iff (raw : Bytes) (h : IsHeaderBlock raw) :
    ReadsWhole raw ↔ ¬ [LF, LF] <:+: raw ∧ ¬ [LF, CR, LF] <:+: raw.dropLast := by
  obtain ⟨first, inner, hf, hinner, rfl⟩ := h.lines
  rw [← nonblank_iff hf hinner]
  constructor
  · intro hw l hl hb
    exact not_readsWhole_of_blank hf hinner hl hb hw
  · intro hne
    exact readsWhole_of_nonblank hf fun l hl => ⟨hinner l hl, hne l hl⟩

theorem readsWhole_iff_curl :
    ReadsWhole (lit "GET / HTTP/1.1\r\nHost: a\nUser-Agent: curl\r\n\r\n") :=
  (readsWhole_iff _ (by decide +kernel)).2 (by decide +kernel)

/-- An empty line ended by a bare LF hides the agent from the parser, not from the reader. -/
def hiddenAgent : Bytes := lit "GET / HTTP/1.1\n\nUser-Agent: curl\r\n\r\n"

theorem hiddenAgent_left_over :
    IsHeaderBlock hiddenAgent ∧ ¬ ReadsWhole hiddenAgent ∧
      (parseRequest hiddenAgent).body = lit "User-Agent: curl\r\n\r\n" ∧
      (parseRequest hiddenAgent).headers = ∅ := by
  have hloop : headerLoop ⟨lit "\nUser-Agent: curl\r\n\r\n", true⟩ =
      ([], ⟨lit "User-Agent: curl\r\n\r\n", true⟩) :=
    headerLoop_blank _ List.not_mem_nil rfl
  have htext : hiddenAgent = lit "GET / HTTP/1.1" ++ LF :: lit "\nUser-Agent: curl\r\n\r\n" := by
    decide +kernel
  have hline : LF ∉ lit "GET / HTTP/1.1" := by decide +kernel
  have hbody : (parseRequest hiddenAgent).body = lit "User-Agent: curl\r\n\r\n" := by
    rw [htext, parseRequest_cons _ hline, parseHeaders_eq, hloop]
    decide +kernel
  refine ⟨by decide +kernel, ?_, hbody, ?_⟩
  · rintro ⟨hnil, -⟩
    rw [hbody] at hnil
    exact absurd hnil (by decide +kernel)
  · rw [htext, parseRequest_cons _ hline, parseHeaders_eq, hloop]
    rfl

/-! ### What a block says -/

/-- The value of the last field of this name. -/
def LastValue (fs : List HeaderField) (name value : Bytes) : Prop :=
  ∃ before f after, fs = before ++ f :: after ∧ f.name = name ∧ f.value = value ∧ ∀ g ∈ after, g.name ≠ name

/-- The changes to the lines of a block that the parser does not see. -/
inductive Rearranged : List BlockLine → List BlockLine → Prop
  | reorder (before after : List BlockLine) {ls ls' : List BlockLine} (h : ls.Perm ls')
      (hd : ((fields ls).map HeaderField.name).Nodup) :
      Rearranged (before ++ ls ++ after) (before ++ ls' ++ after)
  | insert (before after : List BlockLine) (l : BlockLine) (h : COLON ∉ l.line.text) :
      Rearranged (before ++ after) (before ++ l :: after)
  | lineEnds {ls ls' : List BlockLine} (h : ls.map (·.line) = ls'.map (·.line)) : Rearranged ls ls'
  | symm {ls ls' : List BlockLine} (h : Rearranged ls ls') : Rearranged ls' ls
  | trans {ls ls' ls'' : List BlockLine} (h : Rearranged ls ls') (h' : Rearranged ls' ls'') :
      Rearranged ls ls''

section

variable {fs gs : List HeaderField} {headers : HeaderMap}

theorem lastValue_cons {f : HeaderField} {name value : Bytes} :
    LastValue (f :: fs) name value ↔
      LastValue fs name value ∨ f.name = name ∧ f.value = value ∧ ∀ g ∈ fs, g.name ≠ name := by
  constructor
  · rintro ⟨before, g, after, he, hn, hv, ha⟩
    cases before with
    | nil =>
      obtain ⟨rfl, rfl⟩ := List.cons.inj he
      exact .inr ⟨hn, hv, ha⟩
    | cons b before =>
      obtain ⟨rfl, rfl⟩ := List.cons.inj he
      exact .inl ⟨before, g, after, rfl, hn, hv, ha⟩
  · rintro (⟨before, g, after, rfl, hn, hv, ha⟩ | ⟨hn, hv, ha⟩)
    · exact ⟨f :: before, g, after, rfl, hn, hv, ha⟩
    · exact ⟨[], f, fs, rfl, hn, hv, ha⟩

theorem storeAll_eq_some {name value : Bytes} :
    (storeAll fs headers)[name]? = some value ↔
      LastValue fs name value ∨ (∀ g ∈ fs, g.name ≠ name) ∧ headers[name]? = some value := by
  induction fs generalizing headers with
  | nil =>
    refine ⟨fun h => .inr ⟨List.forall_mem_nil _, h⟩, ?_⟩
    rintro (⟨before, f, after, he, -⟩ | ⟨-, h⟩)
    · simp at he
    · exact h
  | cons f fs ih =>
    show (storeAll fs (headers.insert f.name f.value))[name]? = some value ↔ _
    rw [ih, lastValue_cons, List.forall_mem_cons, HeaderMap.getElem?_insert, or_assoc]
    refine or_congr_right ?_
    by_cases hn : f.name = name
    · simp [hn, and_comm]
    · simp [hn]

theorem storeAll_empty_eq_some {name value : Bytes} :
    (storeAll fs ∅)[name]? = some value ↔ LastValue fs name value := by
  rw [storeAll_eq_some]
  simp

/-! ### What does not change a block -/

theorem insert_comm {f g : HeaderField} (h : f.name ≠ g.name) :
    (headers.insert f.name f.value).insert g.name g.value =
      (headers.insert g.name g.value).insert f.name f.value := by
  refine Std.ExtTreeMap.ext_getElem? fun k => ?_
  simp only [HeaderMap.getElem?_insert]
  split
  · rename_i hg
    rw [if_neg fun hf => h (hf.trans hg.symm)]
  · rfl

theorem storeAll_perm (h : fs.Perm gs) (hd : (fs.map HeaderField.name).Nodup) (headers : HeaderMap) :
    storeAll fs headers = storeAll gs headers := by
  refine h.foldl_eq' (fun f hf g hg hs => ?_) headers
  by_cases hn : f.name = g.name
  · rw [List.inj_on_of_nodup_map hd hf hg hn]
  · exact insert_comm hn

theorem storeAll_append (headers : HeaderMap) :
    storeAll (fs ++ gs) headers = storeAll gs (storeAll fs headers) :=
  List.foldl_append

theorem fields_append (ls ls' : List BlockLine) : fields (ls ++ ls') = fields ls ++ fields ls' :=
  List.filterMap_append

theorem HeaderLine.field?_eq_none {l : HeaderLine} (h : COLON ∉ l.text) : l.field? = none := by
  cases l with
  | field f => exact absurd (by simp [text, HeaderField.text]) h
  | plain p => rfl

theorem Rearranged.storeAll_eq {ls ls' : List BlockLine} (h : Rearranged ls ls') (headers : HeaderMap) :
    storeAll (fields ls) headers = storeAll (fields ls') headers := by
  induction h generalizing headers with
  | reorder before after h hd =>
    simp only [fields_append, storeAll_append]
    have hf : (fields _).Perm (fields _) := h.filterMap _
    rw [storeAll_perm hf hd]
  | insert before after l h =>
    have hl : fields (l :: after) = fields after := List.filterMap_cons_none (HeaderLine.field?_eq_none h)
    rw [fields_append, fields_append, hl]
  | lineEnds h =>
    have hmap (ls : List BlockLine) : fields ls = (ls.map (·.line)).filterMap HeaderLine.field? := by
      rw [List.filterMap_map]; rfl
    rw [hmap, hmap, h]
  | symm h ih => exact (ih headers).symm
  | trans h h' ih ih' => exact (ih headers).trans (ih' headers)

end

/-- A block of the grammar gives the first three words of its request line, the last value of each name and
the body; a rearranged block gives the same. -/
theorem parseRequest_grammar :
    (∀ (b : HeaderBlock) (body : Bytes), NUL ∉ body →
      (parseRequest (b.text ++ body)).method = ((Words.words isspace b.requestLine)[0]?).getD [] ∧
      (parseRequest (b.text ++ body)).target = ((Words.words isspace b.requestLine)[1]?).getD [] ∧
      (parseRequest (b.text ++ body)).version = ((Words.words isspace b.requestLine)[2]?).getD [] ∧
      (∀ name value, (parseRequest (b.text ++ body)).headers[name]? = some value ↔
        LastValue b.fields name value) ∧
      (parseRequest (b.text ++ body)).body = body) ∧
    ∀ (b b' : HeaderBlock) (body : Bytes), b.requestLine = b'.requestLine → Rearranged b.lines b'.lines →
      parseRequest (b.text ++ body) = parseRequest (b'.text ++ body) := by
  refine ⟨fun b body hbody => ?_, fun b b' body hline hlines => ?_⟩
  · rw [parseRequest_block]
    exact ⟨rfl, rfl, rfl, fun _ _ => storeAll_empty_eq_some, getline_nul_printed hbody⟩
  · rw [parseRequest_block, parseRequest_block, hline, hlines.storeAll_eq]

def hostField (value : Bytes) (hlf : LF ∉ value) (hv : value.head?.all fun b => !isBlank b) : HeaderField where
  name := lit "Host"
  blanks := [SP, HT]
  value
  name_colon := by decide +kernel
  name_lf := by decide +kernel
  blanks_blank := List.forall_mem_cons.2 ⟨rfl, List.forall_mem_singleton.2 rfl⟩
  value_lf := hlf
  value_head := by
    intro b hb
    rw [hb] at hv
    simpa using hv

def plainLine : BlockLine where
  line := .plain ⟨[CR], by decide, by decide, by decide⟩
  lineEnd := .crlf
  text_cr := fun _ => rfl

/-- Two hosts, one of them with a colon and a CR. -/
def twoHosts (between : List BlockLine) : HeaderBlock where
  requestLine := lit " GET /a"
  requestEnd := .lf
  lines := ⟨.field (hostField [] (by decide) rfl), .lf, by decide +kernel⟩ :: between ++
    [⟨.field (hostField (lit "b:\r") (by decide +kernel) (by decide +kernel)), .crlf, fun _ => rfl⟩]
  blankEnd := .lf
  requestLine_lf := by decide +kernel

theorem parseRequest_grammar_twoHosts :
    (parseRequest ((twoHosts []).text ++ lit "x")).headers[lit "Host"]? = some (lit "b:\r") ∧
    parseRequest ((twoHosts []).text ++ lit "x") = parseRequest ((twoHosts [plainLine]).text ++ lit "x") := by
  refine ⟨((parseRequest_grammar.1 (twoHosts []) (lit "x") (by decide +kernel)).2.2.2.1 _ _).2 ?_,
    parseRequest_grammar.2 (twoHosts []) (twoHosts [plainLine]) _ rfl ?_⟩
  · exact ⟨[hostField [] (by decide) rfl], _, [], rfl, rfl, rfl, List.forall_mem_nil _⟩
  · exact .insert [_] [_] plainLine (by decide)

end MarketBridge
