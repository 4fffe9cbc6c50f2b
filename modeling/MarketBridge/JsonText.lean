import MarketBridge.ConfigSpec
import Mathlib.Algebra.Group.Nat.Defs
import Mathlib.Data.List.Nodup

/-!
# JSON texts and what is stored of them

A value as written may repeat the names of an object; the stored one has each name once, and which of the
members of a repeated name is kept is left open. `JsonReader` is `operator>>`: it skips whitespace (and a
byte order mark), reads one value and stops. `NumberLiteral` is a number as written.
-/

namespace MarketBridge

/-! ### Members -/

def Json.isScalar : Json → Bool
  | array _ | object _ => false
  | _ => true

/-- The paths of the members of a value, at every depth; elements of arrays are passed through. -/
inductive MemberAt : Json → List Bytes → Prop
  | here {ms : List (Bytes × Json)} {k : Bytes} {v : Json} (h : (k, v) ∈ ms) : MemberAt (.object ms) [k]
  | inside {ms : List (Bytes × Json)} {k : Bytes} {v : Json} {p : List Bytes} (h : (k, v) ∈ ms)
      (hp : MemberAt v p) : MemberAt (.object ms) (k :: p)
  | element {vs : List Json} {v : Json} {p : List Bytes} (h : v ∈ vs) (hp : MemberAt v p) :
      MemberAt (.array vs) p

theorem not_memberAt_of_isScalar {v : Json} (h : v.isScalar = true) (p : List Bytes) : ¬ MemberAt v p := by
  intro hp
  cases hp <;> cases h

/-- `Stores w v`: `v` is stored for the written value `w`; of the members named `k` it keeps `kept k`. -/
inductive Stores : Json → Json → Prop
  | scalar {v : Json} (h : v.isScalar = true) : Stores v v
  | array {ws vs : List Json} (hl : vs.length = ws.length)
      (h : ∀ (i : ℕ) (w v : Json), ws[i]? = some w → vs[i]? = some v → Stores w v) :
      Stores (.array ws) (.array vs)
  | object {ws vs : List (Bytes × Json)} (kept : Bytes → Json) (hd : (vs.map Prod.fst).Nodup)
      (hmem : ∀ k v, (k, v) ∈ vs → (k, kept k) ∈ ws) (hs : ∀ k v, (k, v) ∈ vs → Stores (kept k) v)
      (hall : ∀ k w, (k, w) ∈ ws → ∃ v, (k, v) ∈ vs) : Stores (.object ws) (.object vs)

/-- No object repeats a name. -/
inductive Json.DistinctNames : Json → Prop
  | scalar {v : Json} (h : v.isScalar = true) : DistinctNames v
  | array {vs : List Json} (h : ∀ v ∈ vs, DistinctNames v) : DistinctNames (.array vs)
  | object {ms : List (Bytes × Json)} (hd : (ms.map Prod.fst).Nodup)
      (h : ∀ k v, (k, v) ∈ ms → DistinctNames v) : DistinctNames (.object ms)

section

variable {w v : Json} {ms : List (Bytes × Json)} {k : Bytes}

theorem eq_of_mem_of_nodup {α β : Type} {l : List (α × β)} (hd : (l.map Prod.fst).Nodup) {a : α} {x y : β}
    (hx : (a, x) ∈ l) (hy : (a, y) ∈ l) : x = y :=
  congrArg Prod.snd (List.inj_on_of_nodup_map hd hx hy rfl)

theorem Stores.isObject (h : Stores w v) : w.isObject = v.isObject := by
  cases h <;> rfl

theorem Stores.nodup (h : Stores w (.object ms)) : (ms.map Prod.fst).Nodup := by
  cases h with
  | scalar h => cases h
  | object _ hd => exact hd

theorem Stores.member (h : Stores w (.object ms)) (hm : (k, v) ∈ ms) : ∃ w', Stores w' v := by
  cases h with
  | scalar h => cases h
  | object kept _ _ hs => exact ⟨kept k, hs k v hm⟩

/-- Without repeated names no member is lost. -/
theorem Stores.memberAt {p : List Bytes} (h : Stores w v) (hd : w.DistinctNames) (hp : MemberAt w p) :
    MemberAt v p := by
  induction hp generalizing v with
  | here hm =>
    cases h with
    | scalar h => cases h
    | object _ _ _ _ hall =>
      obtain ⟨v, hv⟩ := hall _ _ hm
      exact .here hv
  | inside hm _ ih =>
    cases h with
    | scalar h => cases h
    | object kept _ hmem hs hall =>
      cases hd with
      | scalar h => cases h
      | object hnd hds =>
        obtain ⟨v, hv⟩ := hall _ _ hm
        have hkept := eq_of_mem_of_nodup hnd hm (hmem _ _ hv)
        have hstored := hs _ _ hv
        rw [← hkept] at hstored
        exact .inside hv (ih hstored (hds _ _ hm))
  | element hm _ ih =>
    cases h with
    | scalar h => cases h
    | array hl h =>
      cases hd with
      | scalar h => cases h
      | array hds =>
        obtain ⟨i, hi, rfl⟩ := List.mem_iff_getElem.1 hm
        have hi' := hl ▸ hi
        refine .element (List.getElem_mem hi') (ih (h i _ _ ?_ ?_) (hds _ hm))
        · exact List.getElem?_eq_getElem hi
        · exact List.getElem?_eq_getElem hi'

/-- A value without repeated names is stored as it is written. -/
theorem Json.DistinctNames.stores (h : v.DistinctNames) : Stores v v := by
  induction h with
  | scalar h => exact .scalar h
  | @array vs h ih =>
    refine .array rfl fun i w v hw hv => ?_
    obtain rfl := Option.some.inj (hw.symm.trans hv)
    exact ih w (List.mem_of_getElem? hw)
  | @object ms hd h ih =>
    have hkept : ∀ k v, (k, v) ∈ ms → (ms.lookup k).getD .null = v := fun k v hm => by
      rw [(lookup_eq_some_iff_mem hd).2 hm, Option.getD_some]
    refine .object (fun k => (ms.lookup k).getD .null) hd (fun k v hm => ?_) (fun k v hm => ?_)
      fun k w hm => ⟨w, hm⟩
    · rwa [hkept k v hm]
    · rw [hkept k v hm]
      exact ih k v hm

theorem find?_eq_some_iff (hd : (ms.map Prod.fst).Nodup) :
    (Json.object ms).find? k = some v ↔ (k, v) ∈ ms := lookup_eq_some_iff_mem hd

end

/-! ### The reader -/

def jsonSpace (b : UInt8) : Bool := b == SP || b == HT || b == LF || b == CR

def Blank (s : Bytes) : Prop := ∀ b ∈ s, jsonSpace b = true

/-- The UTF-8 byte order mark. -/
def bom : Bytes := [0xEF, 0xBB, 0xBF]

/-- `isText t w`: `t` is a text of the value `w`. `readText` is the value written at the front of a stream
and what is left of the stream, or the parse error; `stored` is the value kept of what is written. -/
structure JsonReader where
  isText : Bytes → Json → Prop
  readText : Bytes → Except Bytes (Json × Bytes)
  stored : Json → Json

def JsonReader.readValue (r : JsonReader) (s : Bytes) : Except Bytes (Json × Bytes) :=
  match r.readText s with
  | .error what => .error what
  | .ok (w, rest) => .ok (r.stored w, rest)

/-- The reader stops after the value, whatever follows. -/
structure JsonReader.NonStrict (r : JsonReader) : Prop where
  reads : ∀ s w rest, r.readText s = .ok (w, rest) →
    ∃ before t, Blank before ∧ r.isText t w ∧ (s = before ++ t ++ rest ∨ s = bom ++ before ++ t ++ rest)
  object : ∀ before t ms rest, Blank before → r.isText t (.object ms) →
    r.readText (before ++ t ++ rest) = .ok (.object ms, rest)
  brace : ∀ t ms, r.isText t (.object ms) → t.head? = some 123
  stores : ∀ t w, r.isText t w → Stores w (r.stored w)

/-! ### Numbers -/

/-- A number as written: `-`, digits, `.` digits, `e` sign digits, of which all but the first digits may be
missing. -/
structure NumberLiteral where
  minus : Bool
  digits : List (Fin 10)
  fraction : Option (List (Fin 10))
  exponent : Option (Bool × List (Fin 10))
  digits_ne : digits ≠ []

def NumberLiteral.magnitude (l : NumberLiteral) : ℕ := l.digits.foldl (fun n d => 10 * n + d) 0

/-- The integer that a literal without fraction and exponent denotes. -/
def NumberLiteral.int? (l : NumberLiteral) : Option Int :=
  match l.fraction, l.exponent with
  | none, none => some (if l.minus then -l.magnitude else l.magnitude)
  | _, _ => none

/-- The stored value, where `float` gives the floating numbers. -/
def NumberLiteral.stored (float : NumberLiteral → UInt64) (l : NumberLiteral) : Json :=
  match l.fraction, l.exponent with
  | none, none =>
    if l.minus then
      if l.magnitude ≤ 2 ^ 63 then .numberInteger (Int64.ofInt (-l.magnitude)) else .numberFloat (float l)
    else
      if l.magnitude < 2 ^ 64 then .numberUnsigned (UInt64.ofNat l.magnitude) else .numberFloat (float l)
  | _, _ => .numberFloat (float l)

theorem NumberLiteral.int?_stored (float : NumberLiteral → UInt64) (l : NumberLiteral) (n : Int) :
    (l.stored float).int? = some n ↔ l.int? = some n ∧ -2 ^ 63 ≤ n ∧ n < 2 ^ 64 := by
  obtain ⟨minus, digits, fraction, exponent, hne⟩ := l
  unfold NumberLiteral.stored NumberLiteral.int?
  cases fraction with
  | some f => simp [Json.int?]
  | none =>
    cases exponent with
    | some e => simp [Json.int?]
    | none =>
      generalize NumberLiteral.magnitude _ = m
      cases minus with
      | true =>
        simp only [if_true, Option.some.injEq]
        split
        · rename_i hm
          have hn : (Int64.ofInt (-(m : Int))).toInt = -m := Int64.toInt_ofInt_of_le (by omega) (by omega)
          simp only [Json.int?, hn, Option.some.injEq]
          omega
        · simp only [Json.int?, reduceCtorEq, false_iff]
          omega
      | false =>
        simp only [Bool.false_eq_true, if_false, Option.some.injEq]
        split
        · rename_i hm
          have hn : (UInt64.ofNat m).toNat = m := UInt64.toNat_ofNat_of_lt hm
          simp only [Json.int?, hn, Option.some.injEq]
          omega
        · simp only [Json.int?, reduceCtorEq, false_iff]
          omega

end MarketBridge
