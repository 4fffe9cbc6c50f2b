import MarketBridge.Lib.Envelope
import Mathlib.Data.List.Induction

/-!
# Schedules under an envelope

A history conforms when every admitted call fitted, and is greedy when every call that fitted was admitted.
No conforming history admits more calls than a greedy one at the same times, although single calls may be
admitted by the first and not by the second. `Respects` says by positions what `Conforms` says of a history.
-/

namespace Envelope

section

variable {K : Type*} {u : K} {h : List (K × Bool)}

def admitted (h : List (K × Bool)) : ℕ := h.countP fun p => p.2

@[simp] theorem admitted_nil : admitted ([] : List (K × Bool)) = 0 := rfl

theorem admitted_append (h h' : List (K × Bool)) : admitted (h ++ h') = admitted h + admitted h' :=
  List.countP_append

theorem admitted_cons (b : Bool) : admitted ((u, b) :: h) = admitted h + if b then 1 else 0 :=
  List.countP_cons

variable [Field K]

theorem cast_admitted_cons (b : Bool) : (admitted ((u, b) :: h) : K) = admitted h + cost b := by
  rw [admitted_cons]
  cases b <;> simp

variable [LinearOrder K] {c r : K}

/-- Every admitted call fitted when it was made. -/
def Conforms (c r : K) : List (K × Bool) → Prop
  | [] => True
  | (t, b) :: h => (b = true → 1 ≤ c ∧ Fits c r t h 1) ∧ Conforms c r h

/-- Exactly the calls that fitted were admitted. -/
def Greedy (c r : K) : List (K × Bool) → Prop
  | [] => True
  | (t, b) :: h => (b = true ↔ 1 ≤ c ∧ Fits c r t h 1) ∧ Greedy c r h

theorem Greedy.conforms (hg : Greedy c r h) : Conforms c r h := by
  induction h with
  | nil => trivial
  | cons p h ih => exact ⟨hg.1.1, ih hg.2⟩

/-- The envelope in terms of the positions of a schedule, oldest call first. -/
def Respects (c r : K) (plan : List (K × Bool)) : Prop :=
  ∀ i t, plan[i]? = some (t, true) → ∀ j u b, j ≤ i → plan[j]? = some (u, b) →
    (admitted ((plan.take i).drop j) : K) + 1 ≤ c + r * (t - u)

theorem Respects.take {plan : List (K × Bool)} (h : Respects c r plan) (n : ℕ) :
    Respects c r (plan.take n) := by
  intro i t hi j u b hj hu
  have hin : i < n := by
    have := (List.getElem?_eq_some_iff.1 hi).1
    rw [List.length_take] at this
    omega
  rw [List.getElem?_take_of_lt hin] at hi
  rw [List.getElem?_take_of_lt (by omega)] at hu
  rw [List.take_take, min_eq_left hin.le]
  exact h i t hi j u b hj hu

end

variable {K : Type*} [Field K] [LinearOrder K] [IsStrictOrderedRing K] {c r t : K} {h : List (K × Bool)}

theorem Fits.mono {c' r' x : K} (hf : Fits c r t h x) (hc : c ≤ c') (hr : r ≤ r')
    (hs : ∀ p ∈ h, p.1 ≤ t) : Fits c' r' t h x := by
  induction h generalizing x with
  | nil => trivial
  | cons p h ih =>
    obtain ⟨v, b⟩ := p
    obtain ⟨hv, hs⟩ := List.forall_mem_cons.1 hs
    have hmul := mul_le_mul_of_nonneg_right hr (sub_nonneg.2 hv)
    exact ⟨by linarith [hf.1], ih hf.2 hs⟩

theorem Conforms.mono {c' r' : K} (hh : Conforms c r h) (hc : c ≤ c') (hr : r ≤ r')
    (hs : h.Pairwise fun p q => q.1 ≤ p.1) : Conforms c' r' h := by
  induction h with
  | nil => trivial
  | cons p h ih =>
    obtain ⟨hp, hs⟩ := List.pairwise_cons.1 hs
    refine ⟨fun hb => ?_, ih hh.2 hs⟩
    obtain ⟨h₁, h₂⟩ := hh.1 hb
    exact ⟨h₁.trans hc, h₂.mono hc hr hp⟩

/-- What still fits bounds the admitted calls since any time `v`. -/
theorem Fits.window {v x : K} (hf : Fits c r t h x) (hr : 0 ≤ r) (hx : x ≤ c + r * (t - v))
    (hs : (h.map Prod.fst).Pairwise (· ≥ ·)) :
    x + admitted (h.filter fun p => v ≤ p.1) ≤ c + r * (t - v) := by
  induction h generalizing x with
  | nil => simpa using hx
  | cons p h ih =>
    obtain ⟨u, b⟩ := p
    obtain ⟨hu, hs⟩ := List.pairwise_cons.1 hs
    rcases le_or_gt v u with hv | hv
    · have hmul : r * (t - u) ≤ r * (t - v) := mul_le_mul_of_nonneg_left (by linarith) hr
      have hih := ih hf.2 (hf.1.trans (by linarith)) hs
      rw [List.filter_cons_of_pos (by simpa using hv), cast_admitted_cons]
      linarith
    · -- the older calls are before `v` too
      have hnone : h.filter (fun p => v ≤ p.1) = [] := by
        refine List.filter_eq_nil_iff.2 fun p hp => ?_
        have hp := hu p.1 (List.mem_map_of_mem hp)
        simpa using hp.trans_lt hv
      rw [List.filter_cons_of_neg (by simpa using hv), hnone]
      simpa using hx

/-- No window of length `w` holds more than `c + r * w` admitted calls. -/
theorem Conforms.window {v w : K} (hh : Conforms c r h) (hc : 0 ≤ c) (hr : 0 ≤ r) (hvw : v ≤ w)
    (hs : (h.map Prod.fst).Pairwise (· ≥ ·)) :
    (admitted (h.filter fun p => v ≤ p.1 ∧ p.1 ≤ w) : K) ≤ c + r * (w - v) := by
  have hzero : 0 ≤ r * (w - v) := mul_nonneg hr (sub_nonneg.2 hvw)
  induction h with
  | nil => simpa using add_nonneg hc hzero
  | cons p h ih =>
    obtain ⟨u, b⟩ := p
    obtain ⟨hu, hs'⟩ := List.pairwise_cons.1 hs
    have hih := ih hh.2 hs'
    by_cases hin : v ≤ u ∧ u ≤ w
    · rw [List.filter_cons_of_pos (by simpa using hin), cast_admitted_cons]
      cases b with
      | false => simpa using hih
      | true =>
        obtain ⟨hone, hf⟩ := hh.1 rfl
        have hmul : r * (u - v) ≤ r * (w - v) := mul_le_mul_of_nonneg_left (by linarith [hin.2]) hr
        have hzero' : 0 ≤ r * (u - v) := mul_nonneg hr (sub_nonneg.2 hin.1)
        have hwin := hf.window (v := v) hr (by linarith) hs'
        -- the calls before this one are all before `w`
        have hfilter : h.filter (fun p => v ≤ p.1 ∧ p.1 ≤ w) = h.filter fun p => v ≤ p.1 := by
          refine List.filter_congr fun p hp => ?_
          have hp := (hu p.1 (List.mem_map_of_mem hp)).trans hin.2
          simp [hp]
        rw [hfilter, cost_true]
        linarith
    · rwa [List.filter_cons_of_neg (by simpa using hin)]

/-- The fill at time `t` of a bucket that followed the history. -/
def fill (c r t : K) : List (K × Bool) → K
  | [] => c
  | (u, b) :: h => min c (fill c r u h - cost b + (t - u) * r)

theorem level_fill (hr : 0 ≤ r) (hs : (t :: h.map Prod.fst).Pairwise (· ≥ ·)) :
    Level c r t h (fill c r t h) := by
  induction h generalizing t with
  | nil => exact Level.nil
  | cons p h ih =>
    obtain ⟨u, b⟩ := p
    obtain ⟨ht, hs⟩ := List.pairwise_cons.1 hs
    have hut : u ≤ t := ht u List.mem_cons_self
    exact ((ih hs).call b).refill hr hut

/-- The lead in admitted calls of the greedy history makes up for its lower fill. -/
theorem Greedy.lead {h' : List (K × Bool)} (hr : 0 ≤ r) (hg : Greedy c r h) (hc : Conforms c r h')
    (he : h'.map Prod.fst = h.map Prod.fst) (hs : (t :: h.map Prod.fst).Pairwise (· ≥ ·)) :
    admitted h' ≤ admitted h ∧ fill c r t h' - fill c r t h ≤ admitted h - admitted h' := by
  induction h generalizing h' t with
  | nil =>
    obtain rfl : h' = [] := List.map_eq_nil_iff.1 he
    simp
  | cons p h ih =>
    obtain ⟨u, b⟩ := p
    have hne : h' ≠ [] := by rintro rfl; simp at he
    obtain ⟨⟨u', b'⟩, h', rfl⟩ := List.exists_cons_of_ne_nil hne
    obtain ⟨rfl, htimes⟩ : u' = u ∧ h'.map Prod.fst = h.map Prod.fst := by simpa using he
    have hs' := (List.pairwise_cons.1 hs).2
    have hlevel := level_fill (c := c) hr hs' 1
    have hlevel' := level_fill (c := c) (t := u') (h := h') hr (by rw [htimes]; exact hs') 1
    obtain ⟨hle, hgap⟩ := ih hg.2 hc.2 htimes hs'
    have hb : b = true ↔ 1 ≤ fill c r u' h := hg.1.trans hlevel.symm
    have hb' : b' = true → 1 ≤ fill c r u' h' := fun h => hlevel'.2 (hc.1 h)
    have hcast : (admitted h' : K) ≤ admitted h := by exact_mod_cast hle
    have hnext : admitted ((u', b') :: h') ≤ admitted ((u', b) :: h) := by
      rw [admitted_cons, admitted_cons]
      rcases lt_or_eq_of_le hle with hlt | heq
      · split <;> split <;> omega
      · -- without a lead the greedy fill is the higher one
        have hfill : fill c r u' h' ≤ fill c r u' h := by
          have : (admitted h' : K) = admitted h := by rw [heq]
          linarith
        have himp : b' = true → b = true := fun h => hb.2 ((hb' h).trans hfill)
        cases b' with
        | false => simp; omega
        | true => simp [himp rfl, heq]
    have hnext' : (admitted ((u', b') :: h') : K) ≤ admitted ((u', b) :: h) := by exact_mod_cast hnext
    refine ⟨hnext, ?_⟩
    rw [cast_admitted_cons, cast_admitted_cons] at hnext' ⊢
    rw [fill, fill]
    have hx := min_le_left c (fill c r u' h' - cost b' + (t - u') * r)
    have hx' := min_le_right c (fill c r u' h' - cost b' + (t - u') * r)
    rcases min_choice c (fill c r u' h - cost b + (t - u') * r) with hm | hm <;> rw [hm] <;> linarith

/-- No schedule under the envelope is ahead of the greedy one. -/
theorem Greedy.admitted_le {h' : List (K × Bool)} (hr : 0 ≤ r) (hg : Greedy c r h) (hc : Conforms c r h')
    (he : h'.map Prod.fst = h.map Prod.fst) (hs : (h.map Prod.fst).Pairwise (· ≥ ·)) :
    admitted h' ≤ admitted h := by
  cases h with
  | nil =>
    obtain rfl : h' = [] := List.map_eq_nil_iff.1 he
    exact le_rfl
  | cons p h =>
    refine (Greedy.lead (t := p.1) hr hg hc he ?_).1
    refine List.pairwise_cons.2 ⟨fun v hv => ?_, hs⟩
    rcases List.mem_cons.1 hv with rfl | hv
    · exact le_rfl
    · exact (List.pairwise_cons.1 hs).1 v hv

theorem fits_reverse {plan : List (K × Bool)} {x : K}
    (H : ∀ j u b, plan[j]? = some (u, b) → x + admitted (plan.drop j) ≤ c + r * (t - u)) :
    Fits c r t plan.reverse x := by
  induction plan using List.reverseRecOn generalizing x with
  | nil => trivial
  | append_singleton plan p ih =>
    obtain ⟨v, b⟩ := p
    have hone : (admitted [(v, b)] : K) = cost b := by
      rw [cast_admitted_cons, admitted_nil]; simp
    have hadm : ∀ l : List (K × Bool), (admitted (l ++ [(v, b)]) : K) = admitted l + cost b := by
      intro l
      rw [admitted_append, Nat.cast_add, hone]
    rw [List.reverse_append]
    refine ⟨?_, ih fun j u d hj => ?_⟩
    · have := H plan.length v b (by simp)
      rwa [List.drop_left, hone] at this
    · have hlt : j < plan.length := (List.getElem?_eq_some_iff.1 hj).1
      have := H j u d (by rw [List.getElem?_append_left hlt, hj])
      rw [List.drop_append_of_le_length hlt.le, hadm] at this
      linarith

theorem Respects.conforms {plan : List (K × Bool)} (h : Respects c r plan) : Conforms c r plan.reverse := by
  induction plan using List.reverseRecOn with
  | nil => trivial
  | append_singleton plan p ih =>
    obtain ⟨t, b⟩ := p
    have hlen : (plan ++ [(t, b)])[plan.length]? = some (t, b) := by simp
    rw [List.reverse_append]
    refine ⟨fun hb => ?_, ih fun i v hi j u d hj hu => ?_⟩
    · rw [hb] at hlen h
      refine ⟨?_, fits_reverse fun j u d hj => ?_⟩
      · have := h plan.length t hlen plan.length t true le_rfl hlen
        simpa using this
      · have hlt : j < plan.length := (List.getElem?_eq_some_iff.1 hj).1
        have := h plan.length t hlen j u d hlt.le (by rw [List.getElem?_append_left hlt, hj])
        rw [List.take_left] at this
        linarith
    · have hlt : i < plan.length := (List.getElem?_eq_some_iff.1 hi).1
      have := h i v (by rw [List.getElem?_append_left hlt, hi]) j u d hj
        (by rw [List.getElem?_append_left (by omega), hu])
      rwa [List.take_append_of_le_length hlt.le] at this

end Envelope
