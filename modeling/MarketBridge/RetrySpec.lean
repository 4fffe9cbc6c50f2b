import MarketBridge.BucketSpec
import MarketBridge.ResponseSpec
import MarketBridge.ConfigJson

/-!
# A client that obeys `Retry-After`

The 429 response tells a denied client to come back after one second. It is served then iff the bucket gains
a token in a second and can hold one: iff rate and burst size are at least one.
-/

namespace MarketBridge

/-- What the 429 response says, in seconds. -/
def retryAfter : Nat := 1

theorem disallowResponse_delimited : ∃ r : HttpResponse, Delimited disallowResponse r ∧
    r.statusCode = 429 ∧ r.headers[lit "Retry-After"]? = some (lit (toString retryAfter)) := by
  have hreason : OneLine disallowReason := ⟨by decide, by decide⟩
  have hbase := generateHttpResponse_wellFormed .TooManyRequests hreason disallowBody .ApplicationJson .Close
  have hfield : FieldOk (lit "Retry-After") (lit "1") := fieldOk_of_decide (by decide)
  exact ⟨_, (hbase.insert hfield (by decide)).delimited, rfl, Std.ExtTreeMap.getElem?_insert_self⟩

namespace TokenBucket

variable {b : TokenBucket} {c : Call} {cs rs : List Call} {t u now : ℚ}

theorem after_append (b : TokenBucket) (cs ds : List Call) : b.after (cs ++ ds) = (b.after cs).after ds :=
  List.foldl_append

/-- After a call that is denied at `t`, the next call of `allow` is admitted if it comes a hint later. -/
def Serves (b : TokenBucket) : Prop :=
  ∀ (cs rs : List Call) (t u : ℚ), (∀ c ∈ rs, ∃ v, c = .reset v) →
    b.Ordered (cs ++ .allow t :: rs ++ [.allow u]) → ((b.after cs).allow t).1 = false → t + retryAfter ≤ u →
    ((b.after (cs ++ .allow t :: rs)).allow u).1 = true

/-! ### A token a second -/

/-- A bucket whose level is a number of tokens. -/
structure Sane (b : TokenBucket) : Prop where
  rate : 0 ≤ b.rate
  capacity : 0 ≤ b.capacity
  tokens : 0 ≤ b.tokens

theorem Sane.new {rate capacity : ℚ} (hr : 0 ≤ rate) (hc : 0 ≤ capacity) (now : ℚ) :
    (new rate capacity now).Sane := ⟨hr, hc, hc⟩

theorem Sane.refill (hb : b.Sane) (ht : b.lastRefill ≤ now) : (b.refill now).Sane where
  rate := hb.rate
  capacity := hb.capacity
  tokens := by
    have hgain : 0 ≤ (now - b.lastRefill) * b.rate := mul_nonneg (sub_nonneg.2 ht) hb.rate
    exact le_min hb.capacity (add_nonneg hb.tokens hgain)

theorem Sane.call (hb : b.Sane) (ht : b.lastRefill ≤ c.time) : (b.call c).2.Sane := by
  cases c with
  | reset now => exact ⟨hb.rate, hb.capacity, hb.capacity⟩
  | allow now =>
    have hs := hb.refill ht
    rw [TokenBucket.call, allow_eq]
    refine ⟨hs.rate, hs.capacity, ?_⟩
    show 0 ≤ (b.refill now).tokens - if 1 ≤ (b.refill now).tokens then 1 else 0
    split
    · rename_i h
      exact sub_nonneg.2 h
    · rw [sub_zero]
      exact hs.tokens

theorem Sane.after (hb : b.Sane) (ho : b.Ordered cs) : (b.after cs).Sane := by
  induction cs generalizing b with
  | nil => exact hb
  | cons c cs ih => exact ih (hb.call ho.cons.1) ho.cons.2

theorem Ordered.after (ho : b.Ordered (cs ++ rs)) : (b.after cs).Ordered rs := by
  induction cs generalizing b with
  | nil => exact ho
  | cons c cs ih => exact ih ho.cons.2

theorem allow_of_tokens (h : 1 ≤ (b.refill now).tokens) : (b.allow now).1 = true := by
  rw [allow_eq]
  exact decide_eq_true h

/-- A second after a denied call there is a token, if the bucket can hold one. -/
theorem Sane.allow_after_denied (hb : b.Sane) (hr : 1 ≤ b.rate) (hc : 1 ≤ b.capacity) (ht : b.lastRefill ≤ t)
    (hd : (b.allow t).1 = false) (hu : t + retryAfter ≤ u) : ((b.call (.allow t)).2.allow u).1 = true := by
  have hlow : ¬ 1 ≤ (b.refill t).tokens := by
    rw [allow_eq] at hd
    exact of_decide_eq_false hd
  have hleft : (b.call (.allow t)).2 = b.refill t := by
    rw [TokenBucket.call, allow_eq]
    simp [hlow]
  have hgain : 1 ≤ (u - t) * b.rate := by
    have hwait : (1 : ℚ) ≤ u - t := by
      rw [retryAfter] at hu
      push_cast at hu
      linarith
    exact one_le_mul_of_one_le_of_one_le hwait hr
  have htokens := (hb.refill ht).tokens
  rw [hleft]
  refine allow_of_tokens (le_min hc ?_)
  show 1 ≤ (b.refill t).tokens + (u - t) * b.rate
  linarith

/-- A bucket that has just been reset is full. -/
theorem allow_after_reset (hr : 0 ≤ b.rate) (hc : 1 ≤ b.capacity) (hv : t ≤ u) :
    ((b.call (.reset t)).2.allow u).1 = true := by
  have hgain : 0 ≤ (u - t) * b.rate := mul_nonneg (sub_nonneg.2 hv) hr
  refine allow_of_tokens (le_min hc ?_)
  show 1 ≤ b.capacity + (u - t) * b.rate
  linarith

theorem serves_of_one_le {rate capacity : ℚ} (hr : 1 ≤ rate) (hc : 1 ≤ capacity) (now : ℚ) :
    (new rate capacity now).Serves := by
  intro cs rs t u hrs ho hd hu
  have hr₀ : 0 ≤ rate := by linarith
  have hc₀ : 0 ≤ capacity := by linarith
  rcases List.eq_nil_or_concat rs with rfl | ⟨rs, c, rfl⟩
  · have ho' : (new rate capacity now).Ordered (cs ++ [.allow t]) := ho.append_left
    have hs := (Sane.new hr₀ hc₀ now).after ho'.append_left
    rw [after_append]
    exact hs.allow_after_denied (by simpa [new] using hr) (by simpa [new] using hc) ho'.after_le hd hu
  · obtain ⟨v, rfl⟩ := hrs c (by simp)
    rw [List.concat_eq_append] at ho ⊢
    -- the last reset, and the call after it
    have hvu : v ≤ u := by
      have ho' : (new rate capacity now).Ordered
          ((cs ++ .allow t :: rs) ++ [.reset v, .allow u]) := by simpa using ho
      have := ho'.after.cons.2.cons.1
      rw [call_lastRefill] at this
      exact this
    have hsplit : cs ++ .allow t :: (rs ++ [.reset v]) = (cs ++ .allow t :: rs) ++ [.reset v] := by simp
    rw [hsplit, after_append]
    exact allow_after_reset (by simpa [new] using hr₀) (by simpa [new] using hc) hvu

/-! ### A bucket that stays empty -/

/-- Nothing comes in, or nothing fits. -/
def Dry (b : TokenBucket) : Prop := (b.rate = 0 ∧ b.tokens ≤ 0) ∨ b.capacity ≤ 0

theorem Dry.refill_tokens (hb : b.Dry) (now : ℚ) : (b.refill now).tokens ≤ 0 := by
  show min b.capacity (b.tokens + (now - b.lastRefill) * b.rate) ≤ 0
  rcases hb with ⟨hr, ht⟩ | hc
  · rw [hr, mul_zero, add_zero]
    exact min_le_iff.2 (.inr ht)
  · exact min_le_iff.2 (.inl hc)

theorem Dry.denied (hb : b.Dry) (now : ℚ) : (b.allow now).1 = false := by
  have := hb.refill_tokens now
  rw [allow_eq]
  exact decide_eq_false (by linarith)

theorem Dry.call (hb : b.Dry) (now : ℚ) : (b.call (.allow now)).2.Dry := by
  have hlow := hb.refill_tokens now
  have hleft : (b.call (.allow now)).2 = b.refill now := by
    rw [TokenBucket.call, allow_eq]
    simp [show ¬ 1 ≤ (b.refill now).tokens by linarith]
  rw [hleft]
  rcases hb with ⟨hr, -⟩ | hc
  · exact .inl ⟨hr, hlow⟩
  · exact .inr hc

/-- Without a rate, `n` calls drain `n` tokens. -/
theorem dry_after_drain {n : Nat} (hr : b.rate = 0) (hc : b.tokens ≤ b.capacity) (ht : b.tokens = n) (now : ℚ) :
    (b.after (List.replicate n (.allow now))).Dry := by
  induction n generalizing b with
  | zero =>
    refine .inl ⟨hr, ?_⟩
    show b.tokens ≤ 0
    rw [ht, Nat.cast_zero]
  | succ n ih =>
    have htokens : (b.refill now).tokens = n + 1 := by
      show min b.capacity (b.tokens + (now - b.lastRefill) * b.rate) = _
      rw [hr, mul_zero, add_zero, min_eq_right hc, ht]
      push_cast; rfl
    have hpos : (1 : ℚ) ≤ (b.refill now).tokens := by
      rw [htokens]
      have : (0 : ℚ) ≤ n := Nat.cast_nonneg n
      linarith
    have hleft : (b.call (.allow now)).2.tokens = n := by
      rw [TokenBucket.call, allow_eq]
      show (b.refill now).tokens - (if 1 ≤ (b.refill now).tokens then 1 else 0) = n
      rw [if_pos hpos, htokens, add_sub_cancel_right]
    refine ih (call_rate.trans hr) ?_ hleft
    rw [hleft, call_capacity]
    have : b.tokens = n + 1 := by rw [ht]; push_cast; rfl
    linarith

theorem ordered_of_forall_eq (hcs : ∀ c ∈ cs, c.time = b.lastRefill) (hu : b.lastRefill ≤ u) :
    b.Ordered (cs ++ [.allow u]) := by
  have htimes : ∀ x ∈ b.lastRefill :: cs.map Call.time, x = b.lastRefill := by
    intro x hx
    rcases List.mem_cons.1 hx with rfl | hx
    · rfl
    · obtain ⟨c, hc, rfl⟩ := List.mem_map.1 hx
      exact hcs c hc
  rw [Ordered, List.map_append, ← List.cons_append]
  refine List.pairwise_append.2 ⟨?_, List.pairwise_singleton _ _, fun x hx y hy => ?_⟩
  · exact List.pairwise_of_forall_mem_list fun x hx y hy => by rw [htimes x hx, htimes y hy]
  · rw [htimes x hx, List.mem_singleton.1 hy]
    exact hu

/-- A bucket that is dry after `n` calls denies the call after them and the one a hint later. -/
theorem not_serves_of_dry {n : Nat} (h : (b.after (List.replicate n (.allow b.lastRefill))).Dry) :
    ¬ b.Serves := by
  intro hs
  have hle : b.lastRefill ≤ b.lastRefill + retryAfter := by
    rw [retryAfter]
    push_cast
    linarith
  have hcalls : ∀ c ∈ List.replicate n (Call.allow b.lastRefill) ++ [.allow b.lastRefill],
      c.time = b.lastRefill := by
    intro c hc
    rw [← List.replicate_succ'] at hc
    rw [List.eq_of_mem_replicate hc]; rfl
  have hadmit := hs (List.replicate n (.allow b.lastRefill)) [] b.lastRefill (b.lastRefill + retryAfter)
    (List.forall_mem_nil _) (ordered_of_forall_eq hcalls hle) (h.denied _) le_rfl
  rw [after_append] at hadmit
  have hdeny := (h.call b.lastRefill).denied (b.lastRefill + retryAfter)
  rw [show (b.after (List.replicate n (.allow b.lastRefill))).after [.allow b.lastRefill] =
    ((b.after (List.replicate n (.allow b.lastRefill))).call (.allow b.lastRefill)).2 from rfl, hdeny] at hadmit
  cases hadmit

end TokenBucket

open TokenBucket

theorem one_le_cast {n : UInt32} : (1 : ℚ) ≤ n.toNat ↔ 1 ≤ n := by
  rw [UInt32.le_iff_toNat_le, Nat.one_le_cast]
  rfl

theorem eq_zero_of_not_one_le {n : UInt32} (h : ¬ 1 ≤ n) : n.toNat = 0 := by
  rw [UInt32.le_iff_toNat_le] at h
  have : (1 : UInt32).toNat = 1 := rfl
  omega

/-- With throttling on, a denied client that waits as long as the 429 response says is served iff the rate
and the burst size are at least one. -/
theorem retry_served_iff (cfg : Config) (henabled : cfg.throttling.enabled = true) (now : ℚ) :
    (∃ r : HttpResponse, Delimited disallowResponse r ∧ r.statusCode = 429 ∧
      r.headers[lit "Retry-After"]? = some (lit (toString retryAfter))) ∧
    ∃ b, initRateLimiter cfg.throttling now = .tokenBucket b ∧
      (b.Serves ↔ 1 ≤ cfg.throttling.requestsPerSecond ∧ 1 ≤ cfg.throttling.burstSize) := by
  refine ⟨disallowResponse_delimited, _, by rw [initRateLimiter, if_pos henabled], ?_⟩
  constructor
  · intro hs
    by_contra hn
    rw [Classical.not_and_iff_not_or_not] at hn
    rcases hn with hr | hc
    · refine not_serves_of_dry (n := cfg.throttling.burstSize.toNat) (dry_after_drain ?_ le_rfl rfl _) hs
      show (cfg.throttling.requestsPerSecond.toNat : ℚ) = 0
      rw [eq_zero_of_not_one_le hr, Nat.cast_zero]
    · refine not_serves_of_dry (n := 0) (.inr ?_) hs
      show (cfg.throttling.burstSize.toNat : ℚ) ≤ 0
      rw [eq_zero_of_not_one_le hc, Nat.cast_zero]
  · rintro ⟨hr, hc⟩
    exact serves_of_one_le (one_le_cast.2 hr) (one_le_cast.2 hc) now

theorem retry_served_iff_default : ∃ b, initRateLimiter { enabled := true } 0 = .tokenBucket b ∧ b.Serves := by
  obtain ⟨-, b, hb, hs⟩ := retry_served_iff { throttling := { enabled := true } } rfl 0
  exact ⟨b, hb, hs.2 ⟨by decide, by decide⟩⟩

/-- `{"throttling": {"enabled": true, "requests_per_second": 0}}`. -/
def zeroRate : Json :=
  .object [(lit "throttling", .object
    [(lit "enabled", .boolean true), (lit "requests_per_second", .numberUnsigned 0)])]

/-- A rate of zero is accepted, and no client is served again once the burst is used up. -/
theorem zero_rate_starves :
    ¬ ∀ (readValue : Bytes → Except Bytes (Json × Bytes)) (loader : Loader) (c c' : Config) (now : ℚ)
      (b : TokenBucket), loadJsonConfig readValue loader c = .ok () c' → c'.throttling.enabled = true →
      initRateLimiter c'.throttling now = .tokenBucket b → b.Serves := by
  intro h
  obtain ⟨-, b, hb, hs⟩ :=
    retry_served_iff { throttling := { enabled := true, requestsPerSecond := 0 } } rfl 0
  have hserves := h (fun _ => .ok (zeroRate, [])) (LoadFromString []) {}
    { throttling := { enabled := true, requestsPerSecond := 0 } } 0 b rfl rfl hb
  have := (hs.1 hserves).1
  revert this; decide

end MarketBridge
