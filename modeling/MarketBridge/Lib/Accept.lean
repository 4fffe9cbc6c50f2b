import Mathlib.Tactic.Common

/-!
# Programs that accept or reject

A program of type `EStateM ε σ Unit` changes a state and may throw, leaving behind what it has changed so
far. `Accepts m ok post`: whether `m` throws does not depend on the state, it returns exactly when `ok`
holds, and then relates the state before to the state after by `post`.
-/

namespace Accept

open MonadExcept (ofExcept)

variable {ε σ α : Type}

/-- `m` returns if and only if `ok`, and then `post` holds. -/
def Accepts (m : EStateM ε σ Unit) (ok : Prop) (post : σ → σ → Prop) : Prop :=
  ∀ s, (ok → ∃ s', m s = .ok () s' ∧ post s s') ∧ (¬ ok → ∃ e s', m s = .error e s')

/-- `read` decides the relation `R`: it returns what is related to its argument, and throws if nothing
is. -/
def Decides {β : Type} (read : β → Except ε α) (R : β → α → Prop) : Prop :=
  ∀ v x, read v = .ok x ↔ R v x

theorem Decides.exists_error {β : Type} {read : β → Except ε α} {R : β → α → Prop} (h : Decides read R)
    {v : β} (hv : ∀ x, ¬ R v x) : ∃ e, read v = .error e := by
  cases hr : read v with
  | ok x => exact absurd ((h v x).1 hr) (hv x)
  | error e => exact ⟨e, rfl⟩

namespace Accepts

variable {m m₁ m₂ : EStateM ε σ Unit} {ok ok₁ ok₂ : Prop} {post post₁ post₂ : σ → σ → Prop}

theorem mono (h : Accepts m ok₁ post₁) (hok : ok₁ ↔ ok₂) (hpost : ∀ s s', post₁ s s' → post₂ s s') :
    Accepts m ok₂ post₂ := fun s =>
  ⟨fun ho => (h s).1 (hok.2 ho) |>.imp fun s' => And.imp_right (hpost s s'),
    fun ho => (h s).2 (mt hok.1 ho)⟩

theorem pure : Accepts (Pure.pure () : EStateM ε σ Unit) True (fun s s' => s' = s) := fun s =>
  ⟨fun _ => ⟨s, rfl, rfl⟩, fun h => absurd trivial h⟩

theorem seq (h₁ : Accepts m₁ ok₁ post₁) (h₂ : Accepts m₂ ok₂ post₂) :
    Accepts (m₁ >>= fun _ => m₂) (ok₁ ∧ ok₂) (fun s s'' => ∃ s', post₁ s s' ∧ post₂ s' s'') := by
  intro s
  have hbind : (m₁ >>= fun _ => m₂) s = match m₁ s with
      | .ok _ s' => m₂ s'
      | .error e s' => .error e s' := by
    show EStateM.bind m₁ (fun _ => m₂) s = _
    unfold EStateM.bind
    cases m₁ s <;> rfl
  rw [hbind]
  by_cases ho₁ : ok₁
  · obtain ⟨s', hs', hp⟩ := (h₁ s).1 ho₁
    rw [hs']
    refine ⟨fun ho => ?_, fun ho => (h₂ s').2 fun ho₂ => ho ⟨ho₁, ho₂⟩⟩
    obtain ⟨s'', hs'', hp'⟩ := (h₂ s').1 ho.2
    exact ⟨s'', hs'', s', hp, hp'⟩
  · obtain ⟨e, s', hs'⟩ := (h₁ s).2 ho₁
    rw [hs']
    exact ⟨fun ho => absurd ho.1 ho₁, fun _ => ⟨e, s', rfl⟩⟩

theorem check {x : Except ε Unit} (hx : x = .ok () ↔ ok) :
    Accepts (ofExcept x : EStateM ε σ Unit) ok (fun s s' => s' = s) := by
  intro s
  cases x with
  | ok _ => exact ⟨fun _ => ⟨s, rfl, rfl⟩, fun h => absurd (hx.1 rfl) h⟩
  | error e => exact ⟨fun h => by simpa using hx.2 h, fun _ => ⟨e, s, rfl⟩⟩

theorem store {β : Type} {read : β → Except ε α} {R : β → α → Prop} (hread : Decides read R) (v : β)
    (assign : α → σ → σ) :
    Accepts ((ofExcept (read v) : EStateM ε σ α) >>= fun x => modify (assign x)) (∃ x, R v x)
      (fun s s' => ∃ x, R v x ∧ s' = assign x s) := by
  intro s
  cases hr : read v with
  | ok x =>
    have hx := (hread v x).1 hr
    exact ⟨fun _ => ⟨assign x s, rfl, x, hx, rfl⟩, fun h => absurd ⟨x, hx⟩ h⟩
  | error e =>
    refine ⟨fun ⟨x, hx⟩ => ?_, fun _ => ⟨e, s, rfl⟩⟩
    rw [(hread v x).2 hx] at hr
    cases hr

end Accepts

end Accept
