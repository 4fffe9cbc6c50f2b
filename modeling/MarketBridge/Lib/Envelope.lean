import Mathlib.Algebra.Order.Field.Basic
import Mathlib.Tactic.Ring
import Mathlib.Tactic.Linarith

/-!
# Affine envelopes

A history lists past calls, newest first, each with its time and whether it was admitted. Under the
envelope of burst `c` and rate `r` a window of length `w` may hold `c + r * w` admitted calls. `Fits`
asks this of every window that starts at a past call and ends now; `Level` characterises the fill of a
bucket that is refilled at rate `r`, clamped at `c` and lowered by one for each admitted call: it is the
largest number of calls that still fit.
-/

namespace Envelope

variable {K : Type*} [Field K]

/-- What a call takes from the bucket. -/
def cost (b : Bool) : K := if b then 1 else 0

@[simp] theorem cost_true : (cost true : K) = 1 := rfl
@[simp] theorem cost_false : (cost false : K) = 0 := rfl

variable [LinearOrder K]

/-- `x` more calls at time `t` stay under the envelope of every window that starts at a call of the
history. -/
def Fits (c r t : K) : List (K × Bool) → K → Prop
  | [], _ => True
  | (u, b) :: h, x => x + cost b ≤ c + r * (t - u) ∧ Fits c r t h (x + cost b)

/-- `level` is the largest number of calls that fit at time `t`. -/
def Level (c r t : K) (h : List (K × Bool)) (level : K) : Prop :=
  ∀ x, x ≤ level ↔ x ≤ c ∧ Fits c r t h x

variable {c r t u : K} {h : List (K × Bool)} {level : K}

theorem Level.nil : Level c r t [] c := fun _ => by simp [Fits]

variable [IsStrictOrderedRing K]

theorem cost_nonneg (b : Bool) : (0 : K) ≤ cost b := by cases b <;> simp

theorem fits_shift (x : K) : Fits c r t h (x - r * (u - t)) ↔ Fits c r u h x := by
  induction h generalizing x with
  | nil => exact Iff.rfl
  | cons p h ih =>
    obtain ⟨v, b⟩ := p
    have : x - r * (u - t) + cost b = x + cost b - r * (u - t) := by ring
    rw [Fits, Fits, this, ih]
    have h₁ := mul_sub r t v
    have h₂ := mul_sub r u v
    have h₃ := mul_sub r u t
    refine and_congr_left' ⟨fun h => ?_, fun h => ?_⟩ <;> linarith

/-- Refilling for the time passed, with the clamp at the capacity. -/
theorem Level.refill (hl : Level c r t h level) (hr : 0 ≤ r) (htu : t ≤ u) :
    Level c r u h (min c (level + (u - t) * r)) := by
  intro x
  have hd : 0 ≤ r * (u - t) := mul_nonneg hr (sub_nonneg.2 htu)
  rw [le_min_iff, ← sub_le_iff_le_add, mul_comm, hl, fits_shift]
  exact ⟨fun ⟨h₁, _, h₂⟩ => ⟨h₁, h₂⟩, fun ⟨h₁, h₂⟩ => ⟨h₁, by linarith, h₂⟩⟩

theorem Level.call (hl : Level c r t h level) (b : Bool) :
    Level c r t ((t, b) :: h) (level - cost b) := by
  intro x
  have := cost_nonneg (K := K) b
  rw [le_sub_iff_add_le, hl, Fits, sub_self, mul_zero, add_zero]
  exact ⟨fun ⟨h₁, h₂⟩ => ⟨by linarith, h₁, h₂⟩, fun ⟨_, h₁, h₂⟩ => ⟨h₁, h₂⟩⟩

/-- Clamping before a refill changes nothing. -/
theorem min_add_min (x : K) {d : K} (hd : 0 ≤ d) : min c (min c x + d) = min c (x + d) := by
  rcases le_total c x with h | h
  · rw [min_eq_left h, min_eq_left (by linarith), min_eq_left (by linarith)]
  · rw [min_eq_right h]

end Envelope
