import MarketBridge.Forward
import MarketBridge.Lib.Ended

/-!
# Header blocks, line by line

`HeaderBlock` is the grammar of the texts that `parse_request` reads: a request line, header lines and an
empty line, each ended by CRLF or by LF. A line carries the proof that it is of the grammar, so `text` is
all there is to say about it.
-/

namespace MarketBridge

open Ended

/-! ### The header loop -/

/-- The loop processes the lines before the first blank one, and stops right after that. -/
theorem headerLoop_ended {ls : List Bytes} {blank : Bytes} (rest : Bytes)
    (hls : ∀ l ∈ ls, LF ∉ l ∧ popCr l ≠ []) (hb : LF ∉ blank) (he : popCr blank = []) :
    headerLoop ⟨ended LF ls ++ (blank ++ LF :: rest), true⟩ = (ls.map popCr, ⟨rest, true⟩) := by
  induction ls with
  | nil => exact headerLoop_blank rest hb he
  | cons l ls ih =>
    obtain ⟨⟨hl, hne⟩, hls⟩ := List.forall_mem_cons.1 hls
    have happ : ended LF (l :: ls) ++ (blank ++ LF :: rest) =
        l ++ LF :: (ended LF ls ++ (blank ++ LF :: rest)) := by simp
    rw [happ, headerLoop_line _ hl hne, ih hls]
    rfl

theorem headerLoop_ne_nil (iss : IStringStream) : ∀ l ∈ (headerLoop iss).1, l ≠ [] := by
  fun_induction headerLoop iss with
  | case1 => exact List.forall_mem_nil _
  | case2 => exact List.forall_mem_nil _
  | case3 iss line iss' hg hl ih => exact List.forall_mem_cons.2 ⟨hl, ih⟩

/-! ### The grammar -/

inductive LineEnd
  | crlf | lf
deriving DecidableEq, Repr

def LineEnd.bytes : LineEnd → Bytes
  | .crlf => CRLF
  | .lf => [LF]

/-- A line `name ':' blanks value`. -/
structure HeaderField where
  name : Bytes
  blanks : Bytes
  value : Bytes
  name_colon : COLON ∉ name
  name_lf : LF ∉ name
  blanks_blank : ∀ b ∈ blanks, isBlank b = true
  value_lf : LF ∉ value
  value_head : ∀ b, value.head? = some b → isBlank b = false

def HeaderField.text (f : HeaderField) : Bytes := f.name ++ COLON :: (f.blanks ++ f.value)

/-- A line without a colon, which is not empty. -/
structure PlainText where
  text : Bytes
  text_ne : text ≠ []
  text_colon : COLON ∉ text
  text_lf : LF ∉ text

inductive HeaderLine
  | field (f : HeaderField)
  | plain (p : PlainText)

def HeaderLine.text : HeaderLine → Bytes
  | .field f => f.text
  | .plain p => p.text

def HeaderLine.field? : HeaderLine → Option HeaderField
  | .field f => some f
  | .plain _ => none

/-- A header line with its end: CRLF where the text ends in CR. -/
structure BlockLine where
  line : HeaderLine
  lineEnd : LineEnd
  text_cr : line.text.getLast? = some CR → lineEnd = .crlf

def BlockLine.bytes (l : BlockLine) : Bytes := l.line.text ++ l.lineEnd.bytes

structure HeaderBlock where
  requestLine : Bytes
  requestEnd : LineEnd
  lines : List BlockLine
  blankEnd : LineEnd
  requestLine_lf : LF ∉ requestLine

def HeaderBlock.text (b : HeaderBlock) : Bytes :=
  b.requestLine ++ b.requestEnd.bytes ++ b.lines.flatMap BlockLine.bytes ++ b.blankEnd.bytes

def fields (ls : List BlockLine) : List HeaderField := ls.filterMap fun l => l.line.field?

abbrev HeaderBlock.fields (b : HeaderBlock) : List HeaderField := MarketBridge.fields b.lines

/-! ### Reading a line -/

/-- The part of a line end that stands before its LF. -/
def LineEnd.cr : LineEnd → Bytes
  | .crlf => [CR]
  | .lf => []

theorem LineEnd.bytes_eq (e : LineEnd) : e.bytes = e.cr ++ [LF] := by cases e <;> rfl

theorem LineEnd.cr_lf (e : LineEnd) : LF ∉ e.cr := by cases e <;> decide

theorem LineEnd.popCr_cr (e : LineEnd) : popCr e.cr = [] := by cases e <;> decide

/-- What stands before the LF of a line. -/
def BlockLine.raw (l : BlockLine) : Bytes := l.line.text ++ l.lineEnd.cr

theorem BlockLine.flatMap_bytes (ls : List BlockLine) :
    ls.flatMap BlockLine.bytes = ended LF (ls.map BlockLine.raw) := by
  simp only [ended, List.flatMap_map, raw, List.append_assoc, ← LineEnd.bytes_eq]
  rfl

theorem HeaderLine.text_ne (l : HeaderLine) : l.text ≠ [] := by
  cases l with
  | field f => simp [text, HeaderField.text]
  | plain p => exact p.text_ne

theorem HeaderLine.text_lf (l : HeaderLine) : LF ∉ l.text := by
  cases l with
  | field f =>
    have hc : LF ≠ COLON := by decide
    have hb : LF ∉ f.blanks := fun hm => absurd (f.blanks_blank LF hm) (by decide)
    simp [text, HeaderField.text, f.name_lf, hc, hb, f.value_lf]
  | plain p => exact p.text_lf

theorem BlockLine.raw_lf (l : BlockLine) : LF ∉ l.raw := by
  rw [raw, List.mem_append, not_or]
  exact ⟨l.line.text_lf, l.lineEnd.cr_lf⟩

theorem BlockLine.popCr_raw (l : BlockLine) : popCr l.raw = l.line.text := by
  obtain ⟨line, lineEnd, hcr⟩ := l
  cases lineEnd with
  | crlf => exact popCr_append_cr line.text
  | lf =>
    have hne : line.text.getLast? ≠ some CR := fun h => nomatch hcr h
    rw [raw, LineEnd.cr, List.append_nil, popCr_eq_self hne]

def HeaderLine.store (l : HeaderLine) (headers : HeaderMap) : HeaderMap :=
  match l.field? with
  | some f => headers.insert f.name f.value
  | none => headers

theorem parseHeaderLine_text (l : HeaderLine) (headers : HeaderMap) :
    parseHeaderLine l.text headers = l.store headers := by
  cases l with
  | field f =>
    show parseHeaderLine (f.name ++ COLON :: (f.blanks ++ f.value)) headers = headers.insert f.name f.value
    rw [parseHeaderLine_colon headers f.name_colon, dropWhile_blanks f.blanks_blank f.value_head]
  | plain p => exact parseHeaderLine_of_notMem headers p.text_colon

/-! ### Reading a block -/

/-- The header map that the fields leave: each stores its value under its name. -/
def storeAll (fs : List HeaderField) (headers : HeaderMap) : HeaderMap :=
  fs.foldl (fun hs f => hs.insert f.name f.value) headers

theorem foldl_parseHeaderLine (ls : List BlockLine) (headers : HeaderMap) :
    (ls.map fun l => l.line.text).foldl (fun hs line => parseHeaderLine line hs) headers =
      storeAll (fields ls) headers := by
  induction ls generalizing headers with
  | nil => rfl
  | cons l ls ih =>
    rw [List.map_cons, List.foldl_cons, ih, parseHeaderLine_text, HeaderLine.store]
    unfold fields
    rw [List.filterMap_cons]
    cases l.line.field? <;> rfl

theorem words_popCr (l : Bytes) : Words.words isspace (popCr l) = Words.words isspace l := by
  have hcr : isspace CR = true := by decide
  rcases eq_popCr l with h | h
  · rw [← h]
  · conv_rhs => rw [h, Words.words_append_singleton _ hcr]

theorem HeaderBlock.text_append (b : HeaderBlock) (rest : Bytes) :
    b.text ++ rest = b.requestLine ++ b.requestEnd.cr ++
      LF :: (ended LF (b.lines.map BlockLine.raw) ++ (b.blankEnd.cr ++ LF :: rest)) := by
  simp [text, LineEnd.bytes_eq, BlockLine.flatMap_bytes]

theorem headerLoop_block (ls : List BlockLine) (e : LineEnd) (rest : Bytes) :
    headerLoop ⟨ended LF (ls.map BlockLine.raw) ++ (e.cr ++ LF :: rest), true⟩ =
      (ls.map fun l => l.line.text, ⟨rest, true⟩) := by
  have hls : ∀ l ∈ ls.map BlockLine.raw, LF ∉ l ∧ popCr l ≠ [] := by
    intro l hl
    obtain ⟨l, -, rfl⟩ := List.mem_map.1 hl
    rw [l.popCr_raw]
    exact ⟨l.raw_lf, l.line.text_ne⟩
  rw [headerLoop_ended rest hls e.cr_lf e.popCr_cr, List.map_map]
  exact congrArg (·, _) (List.map_congr_left fun l _ => l.popCr_raw)

/-- What `parse_request` makes of a block and the bytes after it. -/
theorem parseRequest_block (b : HeaderBlock) (rest : Bytes) :
    parseRequest (b.text ++ rest) =
      { method := ((Words.words isspace b.requestLine)[0]?).getD []
        target := ((Words.words isspace b.requestLine)[1]?).getD []
        version := ((Words.words isspace b.requestLine)[2]?).getD []
        headers := storeAll b.fields ∅
        body := ((IStringStream.getline NUL ⟨rest, true⟩).1).getD [] } := by
  have hlf : LF ∉ b.requestLine ++ b.requestEnd.cr := by
    rw [List.mem_append, not_or]
    exact ⟨b.requestLine_lf, b.requestEnd.cr_lf⟩
  have hw : Words.words isspace (popCr (b.requestLine ++ b.requestEnd.cr)) =
      Words.words isspace b.requestLine := by
    rw [words_popCr]
    cases b.requestEnd with
    | crlf => exact Words.words_append_singleton _ (by decide)
    | lf => rw [LineEnd.cr, List.append_nil]
  rw [b.text_append, parseRequest_cons _ hlf, parseHeaders_eq, headerLoop_block, foldl_parseHeaderLine,
    parseRequestLine_eq, hw]

/-! ### Every header block is of the grammar -/

theorem exists_headerLine {t : Bytes} (h : LF ∉ t) (hne : t ≠ []) : ∃ l : HeaderLine, l.text = t := by
  by_cases hc : COLON ∈ t
  · obtain ⟨name, v, rfl, hn⟩ := List.eq_append_cons_of_mem hc
    have hblank : ∀ b ∈ v.takeWhile isBlank, isBlank b = true := fun b hb => List.mem_takeWhile_imp hb
    have hvalue : LF ∉ v.dropWhile isBlank := fun hm =>
      h (List.mem_append_right _ (List.mem_cons_of_mem _ ((List.dropWhile_sublist _).subset hm)))
    refine ⟨.field ⟨name, v.takeWhile isBlank, v.dropWhile isBlank, hn, fun hm => h (by simp [hm]), hblank,
      hvalue, fun b hb => isBlank_of_head?_dropWhile hb⟩, ?_⟩
    simp [HeaderLine.text, HeaderField.text]
  · exact ⟨.plain ⟨t, hne, hc, h⟩, rfl⟩

/-- A line is its text with what stands before its LF. -/
theorem exists_lineEnd (l : Bytes) :
    ∃ e : LineEnd, l = popCr l ++ e.cr ∧ ((popCr l).getLast? = some CR → e = .crlf) := by
  by_cases hcr : l.getLast? = some CR
  · have hl : l = popCr l ++ [CR] := by
      rcases eq_popCr l with h | h
      · obtain ⟨l, rfl⟩ := List.getLast?_eq_some_iff.1 hcr
        simp at h
      · exact h
    exact ⟨.crlf, hl, fun _ => rfl⟩
  · have hl : popCr l = l := popCr_eq_self hcr
    refine ⟨.lf, by simp [LineEnd.cr, hl], fun h => ?_⟩
    rw [hl] at h
    exact absurd h hcr

theorem exists_blockLines {ls : List Bytes} (h : ∀ l ∈ ls, LF ∉ l ∧ popCr l ≠ []) :
    ∃ bs : List BlockLine, bs.map BlockLine.raw = ls := by
  induction ls with
  | nil => exact ⟨[], rfl⟩
  | cons l ls ih =>
    obtain ⟨⟨hl, hne⟩, hls⟩ := List.forall_mem_cons.1 h
    obtain ⟨bs, rfl⟩ := ih hls
    obtain ⟨e, he, hcr⟩ := exists_lineEnd l
    obtain ⟨line, hline⟩ := exists_headerLine (fun hm => hl (popCr_subset l hm)) hne
    rw [← hline] at he hcr
    refine ⟨⟨line, e, hcr⟩ :: bs, ?_⟩
    rw [List.map_cons, BlockLine.raw, ← he]

theorem exists_block {first blank : Bytes} {ls : List Bytes} (rest : Bytes) (hf : LF ∉ first)
    (hls : ∀ l ∈ ls, LF ∉ l ∧ popCr l ≠ []) (he : popCr blank = []) :
    ∃ b : HeaderBlock, first ++ LF :: (ended LF ls ++ (blank ++ LF :: rest)) = b.text ++ rest := by
  obtain ⟨bs, rfl⟩ := exists_blockLines hls
  obtain ⟨e, hfirst, -⟩ := exists_lineEnd first
  obtain ⟨e', hblank, -⟩ := exists_lineEnd blank
  refine ⟨⟨popCr first, e, bs, e', fun hm => hf (popCr_subset first hm)⟩, ?_⟩
  rw [HeaderBlock.text_append, ← hfirst]
  rw [he, List.nil_append] at hblank
  rw [← hblank]

/-- The lines of a header block: the request line, the lines between, and the final empty line. -/
theorem IsHeaderBlock.lines {raw : Bytes} (h : IsHeaderBlock raw) :
    ∃ first inner, LF ∉ first ∧ (∀ l ∈ inner, LF ∉ l) ∧
      raw = first ++ LF :: (ended LF inner ++ CRLF) := by
  obtain ⟨s, rfl⟩ := h.1
  obtain ⟨ls, hls, he⟩ := exists_ended LF (s ++ [CR])
  cases ls with
  | nil => simp at he
  | cons first inner =>
    obtain ⟨hf, hinner⟩ := List.forall_mem_cons.1 hls
    refine ⟨first, inner, hf, hinner, ?_⟩
    have hdelim : s ++ httpRequestHeadersDelimiter = s ++ [CR] ++ [LF] ++ CRLF := by
      simp [httpRequestHeadersDelimiter, lit]
    rw [hdelim, he]
    simp

theorem IsHeaderBlock.exists_block {raw : Bytes} (h : IsHeaderBlock raw) :
    ∃ (b : HeaderBlock) (rest : Bytes), raw = b.text ++ rest := by
  obtain ⟨first, inner, hf, hinner, rfl⟩ := h.lines
  have hpre : ∀ l ∈ inner.takeWhile (popCr · != []), LF ∉ l ∧ popCr l ≠ [] := by
    intro l hl
    exact ⟨hinner l ((List.takeWhile_sublist _).subset hl), by simpa using List.mem_takeWhile_imp hl⟩
  -- the block ends at the first blank line
  rcases Words.span_cases (popCr · != []) inner with ⟨-, ht⟩ | ⟨blank, post, -, hb, hsplit⟩
  · rw [ht] at hpre
    obtain ⟨b, he⟩ := MarketBridge.exists_block [] hf hpre (by decide : popCr [CR] = [])
    exact ⟨b, [], he⟩
  · have hblank : popCr blank = [] := by simpa using hb
    obtain ⟨b, he⟩ := MarketBridge.exists_block (ended LF post ++ CRLF) hf hpre hblank
    refine ⟨b, ended LF post ++ CRLF, ?_⟩
    rw [← he]
    conv_lhs => rw [hsplit, ended_append, ended_cons]
    simp

end MarketBridge
