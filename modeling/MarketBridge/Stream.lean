import MarketBridge.Lib.Words
import Mathlib.Data.List.Basic

/-!
# Byte strings and `std::istringstream`

A `std::string` is a list of bytes. Of an input stream the parser uses `std::getline` and `>>` on
strings, in the classic locale; both fail, and leave their target as it was, once an earlier read has
met the end of the input.
-/

namespace MarketBridge

abbrev Bytes := List UInt8

/-- The bytes of an ASCII literal. -/
def lit (s : String) : Bytes := s.toList.map fun c => c.toNat.toUInt8

abbrev NUL : UInt8 := 0
abbrev HT : UInt8 := 9
abbrev LF : UInt8 := 10
abbrev CR : UInt8 := 13
abbrev SP : UInt8 := 32
abbrev COLON : UInt8 := 58

abbrev CRLF : Bytes := [CR, LF]

/-- `std::isspace`: blank, `\t`, `\n`, `\v`, `\f`, `\r`. -/
def isspace (b : UInt8) : Bool := b == SP || (9 ≤ b && b ≤ 13)

abbrev NoSpace (w : Bytes) : Prop := ∀ b ∈ w, isspace b = false

theorem noSpace_of_all {w : Bytes} (h : w.all (fun b => !isspace b) = true) : NoSpace w := by simpa using h

theorem NoSpace.lf {w : Bytes} (h : NoSpace w) : LF ∉ w := fun hm => absurd (h _ hm) (by decide)
theorem NoSpace.cr {w : Bytes} (h : NoSpace w) : CR ∉ w := fun hm => absurd (h _ hm) (by decide)

/-- The unread bytes, and `good()`: neither eofbit nor failbit is set. -/
structure IStringStream where
  rest : Bytes
  good : Bool := true
deriving DecidableEq, Repr

namespace IStringStream

/-- `std::getline(iss, line, delim)`: the line read, or `none` when the stream fails. -/
def getline (delim : UInt8) (iss : IStringStream) : Option Bytes × IStringStream :=
  if iss.good = false ∨ iss.rest = [] then (none, { iss with good := false })
  else
    match iss.rest.dropWhile (· != delim) with
    | [] => (some (iss.rest.takeWhile (· != delim)), ⟨[], false⟩)
    | _ :: rest => (some (iss.rest.takeWhile (· != delim)), ⟨rest, true⟩)

/-- `iss >> word`: the next word, or `none` when the stream fails. -/
def extract (iss : IStringStream) : Option Bytes × IStringStream :=
  let rest := iss.rest.dropWhile isspace
  if iss.good = false ∨ rest = [] then (none, ⟨rest, false⟩)
  else
    match rest.dropWhile fun b => !isspace b with
    | [] => (some (rest.takeWhile fun b => !isspace b), ⟨[], false⟩)
    | rest' => (some (rest.takeWhile fun b => !isspace b), ⟨rest', true⟩)

/-! ### Lines -/

theorem bne_of_notMem {d : UInt8} {line : Bytes} (h : d ∉ line) : ∀ b ∈ line, (b != d) = true := by
  intro b hb
  have : b ≠ d := fun e => h (e ▸ hb)
  simpa using this

theorem getline_line {d : UInt8} {line : Bytes} (rest : Bytes) (h : d ∉ line) :
    getline d ⟨line ++ d :: rest, true⟩ = (some line, ⟨rest, true⟩) := by
  have ht := Words.takeWhile_append_cons (l := rest) (bne_of_notMem h) (bne_self_eq_false d)
  have hd := Words.dropWhile_append_cons (l := rest) (bne_of_notMem h) (bne_self_eq_false d)
  simp [getline, ht, hd]

@[simp] theorem getline_nil (d : UInt8) (good : Bool) : getline d ⟨[], good⟩ = (none, ⟨[], false⟩) := by
  simp [getline]

theorem getline_none {d : UInt8} {iss iss' : IStringStream} (h : getline d iss = (none, iss')) :
    iss.good = false ∨ iss.rest = [] := by
  unfold getline at h
  split at h
  · assumption
  · split at h <;> simp at h

theorem getline_some {d : UInt8} {iss iss' : IStringStream} {line : Bytes}
    (h : getline d iss = (some line, iss')) :
    d ∉ line ∧ iss.good = true ∧
      ((iss.rest = line ++ d :: iss'.rest ∧ iss'.good = true) ∨
        (iss.rest = line ∧ line ≠ [] ∧ iss' = ⟨[], false⟩)) := by
  unfold getline at h
  split at h
  · simp at h
  rename_i hg
  rw [not_or, Bool.not_eq_false] at hg
  have hline : d ∉ iss.rest.takeWhile (· != d) := by
    intro hm
    simpa using List.mem_takeWhile_imp hm
  rcases Words.span_cases (· != d) iss.rest with ⟨hd, ht⟩ | ⟨b, rest, hd, hb, hr⟩
  · rw [hd, ht] at h
    rw [ht] at hline
    simp only [Prod.mk.injEq, Option.some.injEq] at h
    obtain ⟨rfl, rfl⟩ := h
    exact ⟨hline, hg.1, .inr ⟨rfl, hg.2, rfl⟩⟩
  · rw [hd] at h
    simp only [Prod.mk.injEq, Option.some.injEq] at h
    obtain ⟨rfl, rfl⟩ := h
    obtain rfl : b = d := by simpa using hb
    exact ⟨hline, hg.1, .inl ⟨hr, rfl⟩⟩

theorem getline_lt {d : UInt8} {iss iss' : IStringStream} {line : Bytes}
    (h : getline d iss = (some line, iss')) : iss'.rest.length < iss.rest.length := by
  obtain ⟨-, -, ⟨hr, -⟩ | ⟨hr, hne, rfl⟩⟩ := getline_some h
  · rw [hr]; simp; omega
  · rw [hr]; simpa using List.length_pos_iff.2 hne

/-! ### Words -/

def words (iss : IStringStream) : List Bytes :=
  if iss.good then Words.words isspace iss.rest else []

@[simp] theorem words_bad (rest : Bytes) : words ⟨rest, false⟩ = [] := rfl

@[simp] theorem words_good (rest : Bytes) : words ⟨rest, true⟩ = Words.words isspace rest := rfl

theorem extract_words (iss : IStringStream) :
    iss.extract.1 = iss.words.head? ∧ iss.extract.2.words = iss.words.tail := by
  obtain ⟨rest, good⟩ := iss
  cases good with
  | false => simp [extract]
  | true =>
    rw [words_good, ← Words.words_dropWhile]
    rcases Words.span_cases isspace rest with ⟨hr, -⟩ | ⟨b, r, hr, hb, -⟩
    · simp [extract, hr]
    -- `b` is the first byte of the next word
    have hw : ∀ c ∈ (b :: r).takeWhile fun c => !isspace c, isspace c = false := by
      intro c hc
      simpa using List.mem_takeWhile_imp hc
    have hne : ((b :: r).takeWhile fun c => !isspace c) ≠ [] := by
      rw [List.takeWhile_cons_of_pos (by simpa using hb)]; simp
    rcases Words.span_cases (fun c => !isspace c) (b :: r) with ⟨hd, ht⟩ | ⟨s, r', hd, hs, hsplit⟩
    · rw [ht] at hw hne
      rw [hr, Words.words_of_forall hw hne]
      simp [extract, hr, hd, ht]
    · have hs' : isspace s = true := by simpa using hs
      have hwords : Words.words isspace (b :: r) =
          ((b :: r).takeWhile fun c => !isspace c) :: Words.words isspace r' := by
        conv_lhs => rw [hsplit]
        exact Words.words_append_sep hw hne hs'
      rw [hr, hwords]
      simp [extract, hr, hd, Words.words_cons_sep hs']

end IStringStream

end MarketBridge
