import MarketBridge.Lib.Lts
import Mathlib.Algebra.BigOperators.Group.Finset.Basic
import Mathlib.Algebra.GroupWithZero.Nat

/-!
# Ranked transition systems

A rank that every step lowers, up to what the label of the step puts in, bounds the length of a run by what
its labels have put in. Where moreover every state that is not at rest has a step that puts nothing in, the
system can come to rest from everywhere, and it does so in every run that puts nothing in.
-/

namespace Lts

variable {σ α β ι : Type*}

/-- In the states that meet `I` every step lowers `rank`, up to what `gain` says of its label. -/
structure Ranked (R : σ → α → σ → Prop) (I : σ → Prop) (rank : σ → Nat) (gain : α → Nat) : Prop where
  kept : ∀ s a t, I s → R s a t → I t
  lowers : ∀ s a t, I s → R s a t → rank t + 1 ≤ rank s + gain a

namespace Ranked

variable {R : σ → α → σ → Prop} {I : σ → Prop} {rank : σ → Nat} {gain : α → Nat} {s t : σ} {as : List α}

theorem length_le (h : Ranked R I rank gain) (hs : I s) (hr : Run R s as t) :
    as.length + rank t ≤ rank s + (as.map gain).sum := by
  induction hr with
  | nil => simp
  | cons hst _ ih =>
    have hl := h.lowers _ _ _ hs hst
    have hi := ih (h.kept _ _ _ hs hst)
    rw [List.length_cons, List.map_cons, List.sum_cons]
    omega

/-- A further invariant of the system. -/
theorem inter {J : σ → Prop} (h : Ranked R I rank gain) (hJ : ∀ s a t, J s → R s a t → J t) :
    Ranked R (fun s => I s ∧ J s) rank gain where
  kept _ _ _ hi hst := ⟨h.kept _ _ _ hi.1 hst, hJ _ _ _ hi.2 hst⟩
  lowers _ _ _ hi hst := h.lowers _ _ _ hi.1 hst

theorem lt (h : Ranked R I rank gain) {a : α} (hs : I s) (hst : R s a t) (ha : gain a = 0) : rank t < rank s := by
  have hl := h.lowers _ _ _ hs hst
  omega

theorem kept_run (h : Ranked R I rank gain) (hs : I s) (hr : Run R s as t) : I t := hr.invariant h.kept hs

/-- Where every state can come to rest or to a lower rank, it can come to rest. -/
theorem exists_rest {rest : σ → Prop} {P : α → Prop} (h : Ranked R I rank gain)
    (hp : ∀ s, I s → ¬ rest s → ∃ as t, Run R s as t ∧ (rank t < rank s ∨ rest t) ∧ ∀ a ∈ as, P a) (hs : I s) :
    ∃ as t, Run R s as t ∧ rest t ∧ ∀ a ∈ as, P a := by
  induction hn : rank s using Nat.strongRecOn generalizing s with
  | ind n ih =>
    by_cases hrest : rest s
    · exact ⟨[], s, .nil s, hrest, by simp⟩
    · obtain ⟨as, t, hr, hlt | ht, has⟩ := hp s hs hrest
      · obtain ⟨bs, u, hr', hu, hbs⟩ := ih (rank t) (hn ▸ hlt) (h.kept_run hs hr) rfl
        refine ⟨as ++ bs, u, hr.append hr', hu, fun b hb => ?_⟩
        rcases List.mem_append.1 hb with hb | hb
        · exact has b hb
        · exact hbs b hb
      · exact ⟨as, t, hr, ht, has⟩

end Ranked

/-! ### Ranks of states with many parts -/

/-- One entry of a list changes. -/
theorem sum_map_set {f : β → Nat} {l : List β} {k : Nat} {x : β} (y : β) (h : l[k]? = some x) :
    ((l.set k y).map f).sum + f x = (l.map f).sum + f y := by
  induction l generalizing k with
  | nil => simp at h
  | cons z l ih =>
    cases k with
    | zero =>
      obtain rfl : z = x := by simpa using h
      simp only [List.set_cons_zero, List.map_cons, List.sum_cons]
      omega
    | succ k =>
      have hi := ih (by simpa using h)
      simp only [List.set_cons_succ, List.map_cons, List.sum_cons]
      omega

/-- One part of a family changes. -/
theorem sum_off [DecidableEq ι] {parts : Finset ι} {f g : ι → Nat} {i : ι} (hi : i ∈ parts)
    (h : ∀ j, j ≠ i → g j = f j) : ∑ j ∈ parts, g j + f i = ∑ j ∈ parts, f j + g i := by
  have hf := Finset.add_sum_erase parts f hi
  have hg := Finset.add_sum_erase parts g hi
  have hrest : ∑ j ∈ parts.erase i, g j = ∑ j ∈ parts.erase i, f j :=
    Finset.sum_congr rfl fun j hj => h j (Finset.ne_of_mem_erase hj)
  omega

end Lts
