import Mathlib.Data.List.Basic

/-!
# Texts of ended lines

`ended a ls` writes the lines `ls`, each with `a` after it. When no line has an `a` in it the lines are what
`splitOn` finds, and a line `w` is one of them exactly when `w` stands between two `a` in the text.
-/

namespace Ended

variable {α : Type*} {a : α} {l w s : List α} {ls ms : List (List α)}

def ended (a : α) (ls : List (List α)) : List α := ls.flatMap fun l => l ++ [a]

@[simp] theorem ended_nil : ended a [] = [] := rfl

@[simp] theorem ended_cons : ended a (l :: ls) = l ++ a :: ended a ls := by simp [ended]

theorem ended_append : ended a (ls ++ ms) = ended a ls ++ ended a ms := by simp [ended]

theorem ended_eq_intercalate : ended a ls = [a].intercalate (ls ++ [[]]) := by
  induction ls with
  | nil => rfl
  | cons l ls ih =>
    rw [ended_cons, ih]
    cases ls <;> simp [List.intercalate]

/-- Every text that ends in `a` is made of ended lines. -/
theorem exists_ended (a : α) (s : List α) : ∃ ls, (∀ l ∈ ls, a ∉ l) ∧ s ++ [a] = ended a ls := by
  induction s with
  | nil => exact ⟨[[]], by simp, rfl⟩
  | cons b s ih =>
    obtain ⟨ls, hls, he⟩ := ih
    by_cases hb : b = a
    · subst hb
      exact ⟨[] :: ls, by simpa using hls, by simp [he]⟩
    cases ls with
    | nil => simp at he
    | cons l ls =>
      obtain ⟨hl, hls⟩ := List.forall_mem_cons.1 hls
      refine ⟨(b :: l) :: ls, List.forall_mem_cons.2 ⟨?_, hls⟩, by simp [he]⟩
      rw [List.mem_cons, not_or]
      exact ⟨Ne.symm hb, hl⟩

theorem splitOn_ended [BEq α] [LawfulBEq α] (h : ∀ l ∈ ls, a ∉ l) :
    (ended a ls).splitOn a = ls ++ [[]] := by
  rw [ended_eq_intercalate, List.splitOn_intercalate a _ (by simp)]
  intro l hl
  rcases List.mem_append.1 hl with hl | hl
  · exact h l hl
  · rw [List.mem_singleton.1 hl]; exact List.not_mem_nil

/-- What starts with `a` and occurs in `l ++ s` occurs in `s`, where `l` has no `a`. -/
theorem infix_append_iff (hl : a ∉ l) : a :: w <:+: l ++ s ↔ a :: w <:+: s := by
  induction l with
  | nil => rfl
  | cons b l ih =>
    rw [List.mem_cons, not_or] at hl
    rw [List.cons_append, List.infix_cons_iff, ih hl.2]
    refine or_iff_right fun h => hl.1 ?_
    exact (List.cons_prefix_cons.1 h).1

theorem prefix_iff (hl : a ∉ l) (hw : a ∉ w) : w ++ [a] <+: l ++ a :: s ↔ w = l := by
  induction l generalizing w with
  | nil =>
    cases w with
    | nil => simp
    | cons b w =>
      rw [List.mem_cons, not_or] at hw
      simp [Ne.symm hw.1]
  | cons c l ih =>
    rw [List.mem_cons, not_or] at hl
    cases w with
    | nil => simp [hl.1]
    | cons b w =>
      rw [List.mem_cons, not_or] at hw
      rw [List.cons_append, List.cons_append, List.cons_prefix_cons, ih hl.2 hw.2, List.cons.injEq]

theorem mem_ended_iff (h : ∀ l ∈ ls, a ∉ l) (hw : a ∉ w) :
    w ∈ ls ↔ a :: (w ++ [a]) <:+: a :: ended a ls := by
  induction ls with
  | nil =>
    have hlen : ¬ (w ++ [a]).length + 1 ≤ 1 := by simp
    refine iff_of_false List.not_mem_nil fun hi => hlen ?_
    simpa using hi.length_le
  | cons l ls ih =>
    obtain ⟨hl, hls⟩ := List.forall_mem_cons.1 h
    have hcut : a :: (w ++ [a]) <:+: a :: ended a (l :: ls) ↔
        a :: (w ++ [a]) <+: a :: ended a (l :: ls) ∨ a :: (w ++ [a]) <:+: ended a (l :: ls) :=
      List.infix_cons_iff
    rw [hcut, ended_cons, List.cons_prefix_cons, prefix_iff hl hw, infix_append_iff hl, ← ih hls]
    simp

end Ended
