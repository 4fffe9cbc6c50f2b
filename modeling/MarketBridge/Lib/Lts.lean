import Mathlib.Logic.Basic
import Mathlib.Tactic.Common

/-!
# Runs of labelled transition systems

A system is a relation `R : σ → α → σ → Prop` (state, label, next state); an executable one is a
function `f : σ → α → Option σ` read as the relation `Det f`. `Run R s as t` is a finite run, and
`Guarded G R` keeps the steps that meet the condition `G` on the state they start from, so a run of
`Guarded G R` is a run of `R` whose steps all meet `G`.
-/

namespace Lts

variable {σ τ α β : Type*}

/-- The labels `as` lead from one state to another. -/
inductive Run (R : σ → α → σ → Prop) : σ → List α → σ → Prop
  | nil (s : σ) : Run R s [] s
  | cons {s t u : σ} {a : α} {as : List α} (h : R s a t) (hr : Run R t as u) : Run R s (a :: as) u

/-- The relation of a step function; `none` says that the label is not enabled. -/
def Det (f : σ → α → Option σ) (s : σ) (a : α) (t : σ) : Prop := f s a = some t

/-- The steps of `R` that meet the condition `G`. -/
def Guarded (G : σ → α → Prop) (R : σ → α → σ → Prop) (s : σ) (a : α) (t : σ) : Prop :=
  G s a ∧ R s a t

namespace Run

variable {R R' : σ → α → σ → Prop} {s t u : σ} {a : α} {as bs : List α}

theorem single (h : R s a t) : Run R s [a] t := .cons h (.nil t)

theorem append (h : Run R s as t) (h' : Run R t bs u) : Run R s (as ++ bs) u := by
  induction h with
  | nil => exact h'
  | cons hst _ ih => exact .cons hst (ih h')

theorem append_inv (h : Run R s (as ++ bs) u) : ∃ t, Run R s as t ∧ Run R t bs u := by
  induction as generalizing s with
  | nil => exact ⟨s, .nil s, h⟩
  | cons a as ih =>
    cases h with
    | cons hst hr =>
      obtain ⟨t, h₁, h₂⟩ := ih hr
      exact ⟨t, .cons hst h₁, h₂⟩

theorem mono (hR : ∀ s a t, R s a t → R' s a t) (h : Run R s as t) : Run R' s as t := by
  induction h with
  | nil => exact .nil _
  | cons hst _ ih => exact .cons (hR _ _ _ hst) ih

/-- A condition on the labels alone. -/
theorem guarded {G : σ → α → Prop} (h : Run R s as t) (hG : ∀ a ∈ as, ∀ s, G s a) : Run (Guarded G R) s as t := by
  induction h with
  | nil => exact .nil _
  | cons hst _ ih => exact .cons ⟨hG _ List.mem_cons_self _, hst⟩ (ih fun a ha => hG a (List.mem_cons_of_mem _ ha))

/-- An invariant makes the steps of a run steps of `R'`. -/
theorem strengthen {I : σ → Prop} (hI : ∀ s a t, I s → R s a t → I t) (hR : ∀ s a t, I s → R s a t → R' s a t)
    (h : Run R s as t) (hs : I s) : Run R' s as t := by
  induction h with
  | nil => exact .nil _
  | cons hst _ ih => exact .cons (hR _ _ _ hs hst) (ih (hI _ _ _ hs hst))

/-- What holds at the start and is kept by every step holds at the end. -/
theorem invariant {I : σ → Prop} (hI : ∀ s a t, I s → R s a t → I t) (h : Run R s as t) (hs : I s) :
    I t := by
  induction h with
  | nil => exact hs
  | cons hst _ ih => exact ih (hI _ _ _ hs hst)

/-- The invariant rule for properties of the labels taken so far and the state they lead to. -/
theorem trace_invariant {I : List α → σ → Prop} (h₀ : I [] s)
    (hI : ∀ as t a u, I as t → R t a u → I (as ++ [a]) u) (h : Run R s as t) : I as t := by
  suffices H : ∀ bs, I bs s → I (bs ++ as) t by simpa using H [] h₀
  clear h₀
  induction h with
  | nil s => intro bs hb; simpa using hb
  | cons hst _ ih =>
    intro bs hb
    have := ih (bs ++ [_]) (hI _ _ _ _ hb hst)
    simpa using this

/-- Forward simulation: where related states match every step of `R` by a step of `Q` with a label that
`L` relates, a run of `R` is matched by a run of `Q` with related labels. -/
theorem simulate {Q : τ → β → τ → Prop} {L : α → β → Prop} {S : σ → τ → Prop}
    (hS : ∀ s a t x, S s x → R s a t → ∃ b y, L a b ∧ Q x b y ∧ S t y) (h : Run R s as t) {x : τ}
    (hs : S s x) : ∃ bs y, List.Forall₂ L as bs ∧ Run Q x bs y ∧ S t y := by
  induction h generalizing x with
  | nil s => exact ⟨[], x, .nil, .nil _, hs⟩
  | cons hst _ ih =>
    obtain ⟨b, y, hL, hQ, hS'⟩ := hS _ _ _ _ hs hst
    obtain ⟨bs, z, hLs, hQs, hz⟩ := ih hS'
    exact ⟨b :: bs, z, .cons hL hLs, .cons hQ hQs, hz⟩

/-- A part of a system: where every step of `R` is a run of `Q` in the part `f`, so is every run. `L` says
what the labels of a step become. -/
theorem project {Q : τ → β → τ → Prop} {L : α → List β → Prop} {f : σ → τ}
    (hf : ∀ s a t, R s a t → ∃ bs, L a bs ∧ Run Q (f s) bs (f t)) (h : Run R s as t) :
    ∃ bss, List.Forall₂ L as bss ∧ Run Q (f s) bss.flatten (f t) := by
  induction h with
  | nil s => exact ⟨[], .nil, .nil _⟩
  | cons hst _ ih =>
    obtain ⟨bs, hL, hQ⟩ := hf _ _ _ hst
    obtain ⟨bss, hLs, hQs⟩ := ih
    exact ⟨bs :: bss, .cons hL hLs, hQ.append hQs⟩

end Run

/-- Under related labels, one that meets `P` stands on one side as often as one that meets `Q` does on the
other. -/
theorem forall₂_exists_iff {L : α → β → Prop} {P : α → Prop} {Q : β → Prop} {as : List α} {bs : List β}
    (hL : ∀ a b, L a b → (P a ↔ Q b)) (h : List.Forall₂ L as bs) :
    (∃ a ∈ as, P a) ↔ ∃ b ∈ bs, Q b := by
  induction h with
  | nil => simp
  | cons hab _ ih => simp [hL _ _ hab, ih]

variable {f : σ → α → Option σ} {s t : σ} {as : List α}

/-- The runs of a step function are the successful executions of the list of labels. -/
theorem run_det_iff : Run (Det f) s as t ↔ as.foldlM f s = some t := by
  induction as generalizing s with
  | nil =>
    constructor
    · intro h; cases h; rfl
    · intro h; cases h; exact .nil _
  | cons a as ih =>
    rw [List.foldlM_cons]
    constructor
    · intro h
      cases h with
      | cons hst hr => simpa [show f s a = some _ from hst] using ih.1 hr
    · intro h
      obtain ⟨u, hu, hr⟩ := Option.bind_eq_some_iff.1 h
      exact .cons hu (ih.2 hr)

/-- A run that has been executed, with a check of the state it has led to. -/
theorem exists_run {p : σ → Bool} (h : (as.foldlM f s).any p = true) : ∃ t, Run (Det f) s as t ∧ p t = true := by
  obtain ⟨t, ht, hp⟩ := (Option.any_eq_true p _).1 h
  exact ⟨t, run_det_iff.2 ht, hp⟩

/-- A step function and a list of labels lead to one state. -/
theorem run_det_unique {t' : σ} (h : Run (Det f) s as t) (h' : Run (Det f) s as t') : t = t' :=
  Option.some.inj ((run_det_iff.1 h).symm.trans (run_det_iff.1 h'))

/-- A step function under a condition is a step function. -/
theorem guarded_det (G : σ → α → Prop) [∀ s a, Decidable (G s a)] (f : σ → α → Option σ) :
    Guarded G (Det f) = Det fun s a => if G s a then f s a else none := by
  funext s a t
  simp [Guarded, Det]

/-- A run under a condition that has been executed, with a check of the state it has led to. -/
theorem exists_guarded_run {G : σ → α → Prop} [∀ s a, Decidable (G s a)] {p : σ → Bool}
    (h : (as.foldlM (fun s a => if G s a then f s a else none) s).any p = true) :
    ∃ t, Run (Guarded G (Det f)) s as t ∧ p t = true := by
  rw [guarded_det]
  exact exists_run h

/-! ### What a step function does not look at -/

/-- `v` forgets a part of the state that `f` does not look at. -/
def Ignores (f : σ → α → Option σ) (v : σ → σ) : Prop := ∀ s a, (f (v s) a).map v = (f s a).map v

/-- Runs from states that differ in what is forgotten differ in it only. -/
theorem Ignores.run {v : σ → σ} {s' : σ} (hv : Ignores f v) (h : Run (Det f) s as t) (hs : v s' = v s) :
    ∃ t', Run (Det f) s' as t' ∧ v t' = v t := by
  induction h generalizing s' with
  | nil s => exact ⟨s', .nil s', hs⟩
  | @cons s u _ a _ hst _ ih =>
    have hstep : (f s' a).map v = some (v u) := by
      rw [← hv s' a, hs, hv s a, show f s a = some u from hst]
      rfl
    obtain ⟨u', hu, hv'⟩ := Option.map_eq_some_iff.1 hstep
    obtain ⟨t', ht, hvt⟩ := ih hv'
    exact ⟨t', .cons hu ht, hvt⟩

end Lts
