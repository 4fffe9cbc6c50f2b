import MarketBridge.Config
import Mathlib.Algebra.Order.Ring.Rat

/-!
# The token bucket (`tocken-bucket.cpp`)

Levels and clock times (in seconds) are exact rationals where the code has `double`. Every method runs under
the bucket's mutex, so a run of calls from any number of sessions is a list of calls; the clock is read inside
the lock.
-/

namespace MarketBridge

structure TokenBucket where
  rate : ℚ
  capacity : ℚ
  tokens : ℚ
  lastRefill : ℚ
deriving DecidableEq, Repr

namespace TokenBucket

def new (rate capacity now : ℚ) : TokenBucket := ⟨rate, capacity, capacity, now⟩

def ratePeriod : ℚ := 1

def refill (b : TokenBucket) (now : ℚ) : TokenBucket :=
  let elapsed := now - b.lastRefill
  { b with tokens := min b.capacity (b.tokens + elapsed * b.rate), lastRefill := now }

def allow (b : TokenBucket) (now : ℚ) : Bool × TokenBucket :=
  let b := b.refill now
  if ratePeriod ≤ b.tokens then (true, { b with tokens := b.tokens - ratePeriod }) else (false, b)

def reset (b : TokenBucket) (now : ℚ) : TokenBucket :=
  { b with tokens := b.capacity, lastRefill := now }

inductive Call
  | allow (now : ℚ)
  | reset (now : ℚ)
deriving DecidableEq, Repr

def Call.time : Call → ℚ
  | .allow now | .reset now => now

/-- The result of `allow()`, and the bucket left. -/
def call (b : TokenBucket) : Call → Option Bool × TokenBucket
  | .allow now => ((b.allow now).1, (b.allow now).2)
  | .reset now => (none, b.reset now)

def results (b : TokenBucket) : List Call → List (Option Bool)
  | [] => []
  | c :: cs => (b.call c).1 :: results (b.call c).2 cs

def after (b : TokenBucket) (cs : List Call) : TokenBucket := cs.foldl (fun b c => (b.call c).2) b

variable {b : TokenBucket} {c : Call} {cs ds : List Call}

theorem results_append : b.results (cs ++ ds) = b.results cs ++ (b.after cs).results ds := by
  induction cs generalizing b with
  | nil => rfl
  | cons c cs ih => simp [results, after, ih]

@[simp] theorem length_results : (b.results cs).length = cs.length := by
  induction cs generalizing b with
  | nil => rfl
  | cons c cs ih => simp [results, ih]

/-- `allow` takes one token exactly when the refilled bucket has one. -/
theorem allow_eq (b : TokenBucket) (now : ℚ) :
    b.allow now = (decide (1 ≤ (b.refill now).tokens),
      { b.refill now with
        tokens := (b.refill now).tokens - if 1 ≤ (b.refill now).tokens then 1 else 0 }) := by
  unfold allow ratePeriod
  by_cases h : 1 ≤ (b.refill now).tokens <;> simp [h]

end TokenBucket

inductive RateLimiter
  | tokenBucket (b : TokenBucket)
  | unlimited
deriving DecidableEq

/-- `Server::init_rate_limiter`. -/
def initRateLimiter (cfg : Config.Throttling) (now : ℚ) : RateLimiter :=
  if cfg.enabled then .tokenBucket (.new cfg.requestsPerSecond.toNat cfg.burstSize.toNat now) else .unlimited

def RateLimiter.allow (l : RateLimiter) (now : ℚ) : Bool × RateLimiter :=
  match l with
  | .tokenBucket b => ((b.allow now).1, .tokenBucket (b.allow now).2)
  | .unlimited => (true, .unlimited)

end MarketBridge
