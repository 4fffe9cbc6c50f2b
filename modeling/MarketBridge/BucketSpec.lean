import MarketBridge.TokenBucket
import MarketBridge.Lib.Envelope
import Mathlib.Data.List.Induction
import Mathlib.Tactic.IntervalCases

/-!
# The bucket admits what conforms to its envelope

The tokens of a bucket are the `Level` of the calls made since the last reset: the number of further calls
that the envelope of burst `capacity` and rate `rate` still allows.
-/

namespace MarketBridge.TokenBucket

open Envelope

def record (h : List (ℚ × Bool)) : Call → Option Bool → List (ℚ × Bool)
  | .allow now, r => (now, r.getD false) :: h
  | .reset _, _ => []

/-- The history of a run: the calls of `allow` since the last reset, newest first. -/
def history (b : TokenBucket) (h : List (ℚ × Bool)) : List Call → List (ℚ × Bool)
  | [] => h
  | c :: cs => history (b.call c).2 (record h c (b.call c).1) cs

/-- The bucket's tokens are the level of `h`. -/
structure Tracks (b : TokenBucket) (h : List (ℚ × Bool)) : Prop where
  rate_nonneg : 0 ≤ b.rate
  level : Level b.capacity b.rate b.lastRefill h b.tokens

variable {b : TokenBucket} {h : List (ℚ × Bool)} {c : Call} {cs : List Call} {now : ℚ}

theorem Tracks.new {rate : ℚ} (hr : 0 ≤ rate) (capacity now : ℚ) : Tracks (.new rate capacity now) [] :=
  ⟨hr, Level.nil⟩

theorem Tracks.refill (hb : Tracks b h) (ht : b.lastRefill ≤ now) : Tracks (b.refill now) h :=
  ⟨hb.rate_nonneg, hb.level.refill hb.rate_nonneg ht⟩

theorem Tracks.call (hb : Tracks b h) (ht : b.lastRefill ≤ c.time) :
    Tracks (b.call c).2 (record h c (b.call c).1) := by
  cases c with
  | reset now => exact ⟨hb.rate_nonneg, Level.nil⟩
  | allow now =>
    have := (hb.refill ht).level.call (decide (1 ≤ (b.refill now).tokens))
    simp only [TokenBucket.call, allow_eq, record, Option.getD_some]
    refine ⟨hb.rate_nonneg, ?_⟩
    simpa [cost, Call.time, TokenBucket.refill] using this

@[simp] theorem call_rate : (b.call c).2.rate = b.rate := by
  cases c <;> simp [call, allow_eq, reset, refill]

@[simp] theorem call_capacity : (b.call c).2.capacity = b.capacity := by
  cases c <;> simp [call, allow_eq, reset, refill]

@[simp] theorem call_lastRefill : (b.call c).2.lastRefill = c.time := by
  cases c <;> simp [call, allow_eq, reset, refill, Call.time]

@[simp] theorem after_rate : (b.after cs).rate = b.rate := by
  induction cs generalizing b with
  | nil => rfl
  | cons c cs ih => exact ih.trans call_rate

@[simp] theorem after_capacity : (b.after cs).capacity = b.capacity := by
  induction cs generalizing b with
  | nil => rfl
  | cons c cs ih => exact ih.trans call_capacity

def Ordered (b : TokenBucket) (cs : List Call) : Prop :=
  (b.lastRefill :: cs.map Call.time).Pairwise (· ≤ ·)

theorem Ordered.cons (ho : b.Ordered (c :: cs)) : b.lastRefill ≤ c.time ∧ (b.call c).2.Ordered cs := by
  simp only [Ordered, List.map_cons, List.pairwise_cons, List.mem_cons, forall_eq_or_imp] at ho ⊢
  exact ⟨ho.1.1, by simpa using ho.2⟩

theorem Tracks.after (hb : Tracks b h) (ho : b.Ordered cs) : Tracks (b.after cs) (history b h cs) := by
  induction cs generalizing b h with
  | nil => exact hb
  | cons c cs ih => exact ih (hb.call ho.cons.1) ho.cons.2

theorem Ordered.after_le (ho : b.Ordered (cs ++ [c])) : (b.after cs).lastRefill ≤ c.time := by
  induction cs generalizing b with
  | nil => exact ho.cons.1
  | cons d cs ih => exact ih ho.cons.2

theorem Ordered.append_left {ds : List Call} (ho : b.Ordered (cs ++ ds)) : b.Ordered cs := by
  rw [Ordered, List.map_append, ← List.cons_append] at ho
  exact (List.pairwise_append.1 ho).1

theorem history_snoc : history b h (cs ++ [c]) =
    record (history b h cs) c ((b.after cs).call c).1 := by
  induction cs generalizing b h with
  | nil => rfl
  | cons d cs ih => exact ih

/-- No call from the `j`-th on and before the `i`-th is a reset. -/
def NoReset (cs : List Call) (j i : ℕ) : Prop := ∀ k now, j ≤ k → k < i → cs[k]? ≠ some (.reset now)

/-- How many calls were admitted from the `j`-th on and before the `i`-th. -/
def admittedBetween (rs : List (Option Bool)) (j i : ℕ) : ℕ := ((rs.take i).drop j).count (some true)

theorem noReset_snoc_allow {j : ℕ} :
    NoReset (cs ++ [.allow now]) j (cs.length + 1) ↔ NoReset cs j cs.length := by
  constructor
  · intro H k u hj hk
    rw [← List.getElem?_append_left hk]; exact H k u hj (by omega)
  · intro H k u hj hk
    rcases Nat.lt_or_ge k cs.length with hlt | hge
    · rw [List.getElem?_append_left hlt]; exact H k u hj hlt
    · obtain rfl : k = cs.length := by omega
      simp

/-- `Fits` in terms of the positions of the calls in the run. -/
theorem fits_history {capacity rate t x : ℚ} :
    Fits capacity rate t (history b [] cs) x ↔
      ∀ j u, cs[j]? = some (.allow u) → NoReset cs j cs.length →
        x + ((b.results cs).drop j).count (some true) ≤ capacity + rate * (t - u) := by
  induction cs using List.reverseRecOn generalizing x with
  | nil => simp [history, Fits]
  | append_singleton cs c ih =>
    rw [history_snoc, results_append, List.length_append, List.length_singleton]
    cases c with
    | reset now =>
      -- every earlier call is before this reset
      simp only [record, Fits, true_iff]
      intro j u hj hn
      have hlt : j < cs.length + 1 := by simpa using (List.getElem?_eq_some_iff.1 hj).1
      exact absurd (by simp) (hn cs.length now (by omega) (by omega))
    | allow now =>
      generalize hr : ((b.after cs).call (.allow now)).1 = r
      obtain ⟨a, rfl⟩ : ∃ a, r = some a := ⟨_, hr.symm⟩
      have hcost : ([some a].count (some true) : ℚ) = cost a := by cases a <;> simp
      rw [record, Option.getD_some, Fits, ih]
      simp only [results, hr, noReset_snoc_allow]
      constructor
      · rintro ⟨h₁, h₂⟩ j u hj hn
        rcases Nat.lt_or_ge j cs.length with hlt | hge
        · rw [List.getElem?_append_left hlt] at hj
          have := h₂ j u hj hn
          rw [List.drop_append_of_le_length (by simpa using hlt.le), List.count_append]
          push_cast; rw [hcost]; linarith
        · obtain rfl : j = cs.length := by
            have : j < cs.length + 1 := by simpa using (List.getElem?_eq_some_iff.1 hj).1
            omega
          obtain rfl : now = u := by simpa using hj
          rw [List.drop_left' length_results, hcost]; exact h₁
      · intro H
        refine ⟨?_, fun j u hj hn => ?_⟩
        · have := H cs.length now (by simp) fun k u hk hk' => by omega
          rwa [List.drop_left' length_results, hcost] at this
        · have hlt : j < cs.length := (List.getElem?_eq_some_iff.1 hj).1
          have := H j u (by rw [List.getElem?_append_left hlt, hj]) hn
          rw [List.drop_append_of_le_length (by simpa using hlt.le), List.count_append] at this
          push_cast at this; rw [hcost] at this; linarith

theorem allow_after_iff {rate capacity t₀ t : ℚ} (hr : 0 ≤ rate)
    (ho : (new rate capacity t₀).Ordered (cs ++ [.allow t])) :
    (((new rate capacity t₀).after cs).allow t).1 = true ↔
      1 ≤ capacity ∧ ∀ j u, cs[j]? = some (.allow u) → NoReset cs j cs.length →
        1 + (((new rate capacity t₀).results cs).drop j).count (some true) ≤ capacity + rate * (t - u) := by
  have hb := ((Tracks.new hr capacity t₀).after ho.append_left).refill ho.after_le
  rw [allow_eq, decide_eq_true_iff]
  refine (hb.level 1).trans ?_
  rw [fits_history]
  simp [refill, new, Call.time]

theorem admittedBetween_succ {rs : List (Option Bool)} {j i : ℕ} (hji : j ≤ i) :
    admittedBetween rs j (i + 1) = admittedBetween rs j i + if rs[i]? = some (some true) then 1 else 0 := by
  unfold admittedBetween
  rw [List.take_add_one]
  rcases Nat.lt_or_ge i rs.length with hlt | hge
  · rw [List.drop_append_of_le_length (by simp; omega), List.count_append, List.getElem?_eq_getElem hlt]
    simp [List.count_singleton]
  · simp [List.getElem?_eq_none hge]

theorem allow_of_results {i : ℕ} (hi : (b.results cs)[i]? = some (some true)) :
    ∃ t, cs[i]? = some (.allow t) := by
  induction cs generalizing b i with
  | nil => simp [results] at hi
  | cons c cs ih =>
    cases i with
    | zero => cases c with
      | allow t => exact ⟨t, rfl⟩
      | reset t => simp [results, call] at hi
    | succ i => exact ih (by simpa [results] using hi)

theorem admitted_iff {rate t : ℚ} {i : ℕ} (capacity t₀ : ℚ) (hr : 0 ≤ rate)
    (ho : (new rate capacity t₀).Ordered cs) (hi : cs[i]? = some (.allow t)) :
    ((new rate capacity t₀).results cs)[i]? = some (some true) ↔
      ∀ j u, j ≤ i → cs[j]? = some (.allow u) → NoReset cs j i →
        (admittedBetween ((new rate capacity t₀).results cs) j i : ℚ) + 1 ≤ capacity + rate * (t - u) := by
  obtain ⟨pre, post, rfl, rfl⟩ : ∃ pre post, cs = pre ++ .allow t :: post ∧ pre.length = i := by
    obtain ⟨hlt, he⟩ := List.getElem?_eq_some_iff.1 hi
    exact ⟨cs.take i, cs.drop (i + 1), by rw [← he]; simp, by simp; omega⟩
  have hres : ((new rate capacity t₀).results (pre ++ .allow t :: post))[pre.length]? =
      some (some (((new rate capacity t₀).after pre).allow t).1) := by
    rw [results_append, List.getElem?_append_right (by simp)]
    simp [results, call]
  have hbetween : ∀ j, admittedBetween ((new rate capacity t₀).results (pre ++ .allow t :: post)) j
      pre.length = (((new rate capacity t₀).results pre).drop j).count (some true) := by
    intro j
    rw [admittedBetween, results_append, List.take_left' length_results]
  have hnr : ∀ j, NoReset (pre ++ .allow t :: post) j pre.length ↔ NoReset pre j pre.length := fun j =>
    forall₂_congr fun k u => forall₂_congr fun hk hk' => by rw [List.getElem?_append_left hk']
  have ho' : (new rate capacity t₀).Ordered (pre ++ [.allow t]) := by
    rw [← List.singleton_append, ← List.append_assoc] at ho
    exact ho.append_left
  rw [hres, Option.some_inj, Option.some_inj, allow_after_iff hr ho']
  simp only [hbetween, hnr]
  constructor
  · rintro ⟨hc, H⟩ j u hj hju hn
    rcases Nat.lt_or_ge j pre.length with hlt | hge
    · rw [add_comm]; exact H j u (by rwa [List.getElem?_append_left hlt] at hju) hn
    · obtain rfl : j = pre.length := by omega
      obtain rfl : t = u := by simpa using hju
      rw [List.drop_eq_nil_of_le (by simp)]
      simpa using hc
  · intro H
    refine ⟨?_, fun j u hju hn => ?_⟩
    · have := H pre.length t le_rfl (by simp) fun k u hk hk' => by omega
      rw [List.drop_eq_nil_of_le (by simp)] at this
      simpa using this
    · have hlt := (List.getElem?_eq_some_iff.1 hju).1
      rw [add_comm]
      exact H j u hlt.le (by rwa [List.getElem?_append_left hlt]) hn

/-- A call is admitted if and only if every window that ends with it conforms, and so every window without
a reset conforms. -/
theorem admits_iff_envelope (rate capacity t₀ : ℚ) (hr : 0 ≤ rate) (hc : 0 ≤ capacity) (calls : List Call)
    (ho : (t₀ :: calls.map Call.time).Pairwise (· ≤ ·)) :
    (∀ i t, calls[i]? = some (.allow t) →
      (((new rate capacity t₀).results calls)[i]? = some (some true) ↔
        ∀ j u, j ≤ i → calls[j]? = some (.allow u) → NoReset calls j i →
          (admittedBetween ((new rate capacity t₀).results calls) j i : ℚ) + 1 ≤
            capacity + rate * (t - u))) ∧
    ∀ a w j i, 0 ≤ w → NoReset calls j i →
      (∀ k c, j ≤ k → k < i → calls[k]? = some c → a ≤ c.time ∧ c.time ≤ a + w) →
      (admittedBetween ((new rate capacity t₀).results calls) j i : ℚ) ≤ capacity + rate * w := by
  have hcall := fun i t (hi : calls[i]? = some (Call.allow t)) => admitted_iff capacity t₀ hr ho hi
  refine ⟨hcall, fun a w j i hw hn hin => ?_⟩
  have hcw : 0 ≤ capacity + rate * w := add_nonneg hc (mul_nonneg hr hw)
  -- the last admitted call of the window closes a window that conforms
  induction i with
  | zero => simpa [admittedBetween] using hcw
  | succ i ih =>
    rcases Nat.lt_or_ge i j with hlt | hji
    · have : admittedBetween ((new rate capacity t₀).results calls) j (i + 1) = 0 := by
        rw [admittedBetween, List.drop_eq_nil_of_le (by simp; omega)]; rfl
      rw [this]; simpa using hcw
    have hn' : NoReset calls j i := fun k now hk hk' => hn k now hk (by omega)
    rw [admittedBetween_succ hji]
    split
    · rename_i hi
      obtain ⟨t, ht⟩ := allow_of_results hi
      obtain ⟨u, hu⟩ : ∃ u, calls[j]? = some (.allow u) := by
        have hlt : j < calls.length := by have := (List.getElem?_eq_some_iff.1 ht).1; omega
        cases hcj : calls[j] with
        | allow u => exact ⟨u, by rw [List.getElem?_eq_getElem hlt, hcj]⟩
        | reset u =>
          exact absurd (by rw [List.getElem?_eq_getElem hlt, hcj]) (hn j u le_rfl (by omega))
      have henv := (hcall i t ht).1 hi j u hji hu hn'
      have h₁ := (hin j _ le_rfl (by omega) hu).1
      have h₂ := (hin i _ hji (by omega) ht).2
      simp only [Call.time] at h₁ h₂
      have := mul_le_mul_of_nonneg_left (by linarith : t - u ≤ w) hr
      push_cast; linarith
    · simpa using ih hn' fun k c hk hk' => hin k c hk (by omega)

/-- Three calls within a second on a bucket of capacity 1 at rate 1. -/
theorem admits_iff_envelope_second :
    (admittedBetween ((new 1 1 0).results [.allow 0, .allow (1 / 2), .allow 1]) 0 3 : ℚ) ≤ 1 + 1 * 1 := by
  refine (admits_iff_envelope 1 1 0 (by norm_num) (by norm_num) [.allow 0, .allow (1 / 2), .allow 1]
    (by simp [Call.time]; norm_num)).2 0 1 0 3 (by norm_num) (fun k now _ hk => ?_) fun k c _ hk hc => ?_
  · interval_cases k <;> simp
  · interval_cases k <;> obtain rfl := Option.some.inj hc <;> norm_num [Call.time]

end MarketBridge.TokenBucket
