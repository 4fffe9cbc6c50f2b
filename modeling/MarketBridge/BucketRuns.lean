import MarketBridge.BucketSpec
import MarketBridge.Lib.Schedule

/-!
# Whole runs of the bucket

Two runs are compared here: a run with the one that lacks some denied calls, and the run of a fresh bucket
with any other choice of admitted calls. Denied calls leave no trace but the time of the last refill; and a
fresh bucket is greedy, so nothing that respects its envelope gets ahead of it.
-/

namespace MarketBridge.TokenBucket

open Envelope

/-! ### Denied calls are inert -/

section

variable {b b' : TokenBucket} {s t now : ℚ}

theorem refill_refill (b : TokenBucket) (hr : 0 ≤ b.rate) (hst : s ≤ t) :
    (b.refill s).refill t = b.refill t := by
  have hd : 0 ≤ (t - s) * b.rate := mul_nonneg (sub_nonneg.2 hst) hr
  have hadd : b.tokens + (s - b.lastRefill) * b.rate + (t - s) * b.rate =
      b.tokens + (t - b.lastRefill) * b.rate := by ring
  show ({ b with tokens := min b.capacity (min b.capacity (b.tokens + (s - b.lastRefill) * b.rate) +
    (t - s) * b.rate), lastRefill := t } : TokenBucket) = b.refill t
  rw [min_add_min _ hd, hadd]
  rfl

/-- From `b.lastRefill` on, both buckets give the same when refilled. -/
def Agree (b' b : TokenBucket) : Prop := ∀ t, b.lastRefill ≤ t → b'.refill t = b.refill t

theorem Agree.rfl : Agree b b := fun _ _ => Eq.refl _

theorem Agree.call (h : Agree b' b) {c : Call} (hc : b.lastRefill ≤ c.time) : b'.call c = b.call c := by
  have href := h c.time hc
  cases c with
  | allow now =>
    have href : b'.refill now = b.refill now := href
    simp only [TokenBucket.call, allow_eq, href]
  | reset now =>
    obtain ⟨hrate, hcapacity⟩ : b'.rate = b.rate ∧ b'.capacity = b.capacity :=
      ⟨congrArg (fun b => b.rate) href, congrArg (fun b => b.capacity) href⟩
    simp [TokenBucket.call, reset, hrate, hcapacity]

theorem call_denied (h : (b.call (.allow now)).1 = some false) : (b.call (.allow now)).2 = b.refill now := by
  simp only [TokenBucket.call, allow_eq, Option.some.injEq, decide_eq_false_iff_not] at h ⊢
  simp [h]

/-- A denied call changes nothing for the calls after it. -/
theorem Agree.denied (h : Agree b' b) (hr : 0 ≤ b.rate) (hnow : b.lastRefill ≤ now)
    (hd : (b.call (.allow now)).1 = some false) : Agree b' (b.call (.allow now)).2 := by
  rw [call_denied hd]
  intro t ht
  have ht' : now ≤ t := ht
  rw [refill_refill b hr ht']
  exact h t (hnow.trans ht')

/-- The second run is the first without some of the calls that were denied. -/
inductive Thinned : List (Call × Option Bool) → List (Call × Option Bool) → Prop
  | nil : Thinned [] []
  | keep (p : Call × Option Bool) {run kept} (h : Thinned run kept) : Thinned (p :: run) (p :: kept)
  | drop (now : ℚ) {run kept} (h : Thinned run kept) : Thinned ((.allow now, some false) :: run) kept

theorem Thinned.results {cs : List Call} {kept : List (Call × Option Bool)}
    (h : Thinned (cs.zip (b.results cs)) kept) (hr : 0 ≤ b.rate) (ho : b.Ordered cs) (ha : Agree b' b) :
    b'.results (kept.map Prod.fst) = kept.map Prod.snd := by
  induction cs generalizing b b' kept with
  | nil =>
    cases h
    rfl
  | cons c cs ih =>
    obtain ⟨hc, ho'⟩ := ho.cons
    have hr' : 0 ≤ (b.call c).2.rate := by rwa [call_rate]
    generalize hz : (c :: cs).zip (b.results (c :: cs)) = run at h
    rw [TokenBucket.results, List.zip_cons_cons] at hz
    cases h with
    | nil => simp at hz
    | keep p h =>
      obtain ⟨rfl, rfl⟩ := List.cons.inj hz
      rw [List.map_cons, List.map_cons, TokenBucket.results, ha.call hc, ih h hr' ho' Agree.rfl]
    | drop now h =>
      obtain ⟨hp, rfl⟩ := List.cons.inj hz
      obtain ⟨rfl, hd⟩ := Prod.mk.inj hp
      exact ih h hr' ho' (ha.denied hr hc hd)

end

/-- Deleting denied calls leaves the results of all others as they were. -/
theorem results_thinned (b : TokenBucket) (hr : 0 ≤ b.rate) (cs : List Call) (ho : b.Ordered cs)
    (kept : List (Call × Option Bool)) (h : Thinned (cs.zip (b.results cs)) kept) :
    b.results (kept.map Prod.fst) = kept.map Prod.snd :=
  h.results hr ho Agree.rfl

/-- The second of three calls within a second is denied, and can be left out. -/
theorem results_thinned_second :
    (new 1 1 0).results ([(.allow 0, some true), (.allow 1, some true)].map Prod.fst) =
      [some true, some true] := by
  have hresults : (new 1 1 0).results [.allow 0, .allow (1 / 2), .allow 1] =
      [some true, some false, some true] := by decide +kernel
  refine results_thinned (new 1 1 0) (by norm_num [new]) [.allow 0, .allow (1 / 2), .allow 1] ?_ _ ?_
  · simp [Ordered, new, Call.time]
    norm_num
  · rw [hresults]
    exact .keep _ (.drop _ (.keep _ .nil))

/-! ### A fresh bucket is greedy -/

variable {rate capacity t₀ : ℚ} {ts : List ℚ}

theorem map_fst_history {b : TokenBucket} :
    (history b [] (ts.map .allow)).map Prod.fst = ts.reverse := by
  induction ts using List.reverseRecOn with
  | nil => rfl
  | append_singleton ts t ih =>
    rw [List.map_append, List.map_singleton, history_snoc, List.reverse_append]
    show t :: (history b [] (ts.map .allow)).map Prod.fst = t :: ts.reverse
    rw [ih]

theorem admitted_history {b : TokenBucket} :
    admitted (history b [] (ts.map .allow)) = (b.results (ts.map .allow)).count (some true) := by
  induction ts using List.reverseRecOn with
  | nil => rfl
  | append_singleton ts t ih =>
    rw [List.map_append, List.map_singleton, history_snoc, results_append, List.count_append, ← ih]
    generalize hr : ((b.after (ts.map .allow)).call (.allow t)).1 = r
    obtain ⟨a, rfl⟩ : ∃ a, r = some a := ⟨_, hr.symm⟩
    rw [record, Option.getD_some, admitted_cons]
    simp only [results, hr]
    cases a <;> simp

theorem greedy_history (hr : 0 ≤ rate) (ho : (new rate capacity t₀).Ordered (ts.map .allow)) :
    Greedy capacity rate (history (new rate capacity t₀) [] (ts.map .allow)) := by
  induction ts using List.reverseRecOn with
  | nil => trivial
  | append_singleton ts t ih =>
    rw [List.map_append, List.map_singleton] at ho ⊢
    rw [history_snoc]
    refine ⟨?_, ih ho.append_left⟩
    have hb := ((Tracks.new hr capacity t₀).after ho.append_left).refill ho.after_le
    rw [TokenBucket.call, allow_eq, Option.getD_some, decide_eq_true_iff]
    refine (hb.level 1).trans ?_
    simp [refill, new, Call.time]

theorem ordered_allow (ho : (t₀ :: ts).Pairwise (· ≤ ·)) :
    (new rate capacity t₀).Ordered (ts.map .allow) := by
  have htime : (ts.map Call.allow).map Call.time = ts := by
    rw [List.map_map]; exact List.map_id ts
  rw [Ordered, htime]
  exact ho

theorem results_take {b : TokenBucket} {cs : List Call} (n : ℕ) :
    (b.results cs).take n = b.results (cs.take n) := by
  induction cs generalizing b n with
  | nil => simp [results]
  | cons c cs ih =>
    cases n with
    | zero => rfl
    | succ n => rw [results, List.take_succ_cons, List.take_succ_cons, results, ih]

theorem admittedBetween_zero {b : TokenBucket} (n : ℕ) :
    admittedBetween (b.results (ts.map .allow)) 0 n = admitted (history b [] ((ts.take n).map .allow)) := by
  rw [admittedBetween, List.drop_zero, results_take, ← List.map_take, admitted_history]

/-- What conforms at the times of the first `n` calls admits no more than the bucket. -/
theorem admitted_le_new (hr : 0 ≤ rate) (ho : (t₀ :: ts).Pairwise (· ≤ ·)) {n : ℕ} {h : List (ℚ × Bool)}
    (hc : Conforms capacity rate h) (htimes : h.map Prod.fst = (ts.take n).reverse) :
    admitted h ≤ admittedBetween ((new rate capacity t₀).results (ts.map .allow)) 0 n := by
  have ho' : (t₀ :: ts.take n).Pairwise (· ≤ ·) := ho.sublist ((List.take_sublist n ts).cons_cons t₀)
  have hsorted : ((ts.take n).reverse).Pairwise (· ≥ ·) :=
    List.pairwise_reverse.2 (List.pairwise_cons.1 ho').2
  rw [admittedBetween_zero]
  refine (greedy_history hr (ordered_allow ho')).admitted_le hr hc ?_ ?_
  · rw [htimes, map_fst_history]
  · rw [map_fst_history]; exact hsorted

/-- No schedule under the envelope is ahead of a fresh bucket; a more generous bucket is never behind. -/
theorem new_admits_most (rate capacity t₀ : ℚ) (hr : 0 ≤ rate) (ts : List ℚ)
    (ho : (t₀ :: ts).Pairwise (· ≤ ·)) :
    (∀ plan : List (ℚ × Bool), plan.map Prod.fst = ts → Respects capacity rate plan → ∀ n,
      admitted (plan.take n) ≤ admittedBetween ((new rate capacity t₀).results (ts.map .allow)) 0 n) ∧
    ∀ rate' capacity' t₀', rate ≤ rate' → capacity ≤ capacity' → (t₀' :: ts).Pairwise (· ≤ ·) → ∀ n,
      admittedBetween ((new rate capacity t₀).results (ts.map .allow)) 0 n ≤
        admittedBetween ((new rate' capacity' t₀').results (ts.map .allow)) 0 n := by
  refine ⟨fun plan htimes hplan n => ?_, fun rate' capacity' t₀' hr' hc' ho' n => ?_⟩
  · have hrev : admitted (plan.take n) = admitted (plan.take n).reverse := by simp [admitted]
    have ht : (plan.take n).reverse.map Prod.fst = (ts.take n).reverse := by
      rw [List.map_reverse, List.map_take, htimes]
    rw [hrev]
    exact admitted_le_new hr ho (hplan.take n).conforms ht
  · have hot : (t₀ :: ts.take n).Pairwise (· ≤ ·) := ho.sublist ((List.take_sublist n ts).cons_cons t₀)
    have hconf : Conforms capacity rate _ := (greedy_history hr (ordered_allow hot)).conforms
    have hsorted : (history (new rate capacity t₀) [] ((ts.take n).map .allow)).Pairwise
        fun p q => q.1 ≤ p.1 := by
      rw [← List.pairwise_map (f := Prod.fst) (R := (· ≥ ·)), map_fst_history]
      exact List.pairwise_reverse.2 (List.pairwise_cons.1 hot).2
    rw [admittedBetween_zero]
    exact admitted_le_new (hr.trans hr') ho' (hconf.mono hc' hr' hsorted) map_fst_history

/-- A schedule that passes over the first call is behind at first. -/
theorem new_admits_most_second :
    admitted ([((0 : ℚ), false), (1 / 2, true)].take 1) ≤
        admittedBetween ((new 1 1 0).results ([0, 1 / 2].map .allow)) 0 1 ∧
      admittedBetween ((new 1 1 0).results ([0, 1 / 2].map .allow)) 0 2 ≤
        admittedBetween ((new 2 1 (-1)).results ([0, 1 / 2].map .allow)) 0 2 := by
  have hmost := new_admits_most 1 1 0 (by norm_num) [0, 1 / 2] (by norm_num)
  refine ⟨hmost.1 [(0, false), (1 / 2, true)] rfl ?_ 1,
    hmost.2 2 1 (-1) (by norm_num) le_rfl (by norm_num) 2⟩
  intro i t hi j u b hj hu
  have hlt := (List.getElem?_eq_some_iff.1 hi).1
  simp only [List.length_cons, List.length_nil] at hlt
  interval_cases i
  · simp at hi
  · obtain rfl : 1 / 2 = t := by simpa using hi
    interval_cases j
    · obtain ⟨rfl, -⟩ : (0 : ℚ) = u ∧ false = b := by simpa using hu
      norm_num [admitted]
    · obtain ⟨rfl, -⟩ : (1 / 2 : ℚ) = u ∧ true = b := by simpa using hu
      norm_num [admitted]

end MarketBridge.TokenBucket
