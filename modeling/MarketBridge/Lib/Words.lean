import Mathlib.Data.List.Basic
import Mathlib.Data.List.TakeWhile

/-!
# Cutting a list at separators

`span_cases`: where `takeWhile` and `dropWhile` cut a list. `words p l`: the maximal non-empty blocks of
`l` without separators (elements satisfying `p`).
-/

namespace Words

variable {α : Type*} {p : α → Bool}

/-- The first element that fails `p`, if any, is where `takeWhile p` and `dropWhile p` cut. -/
theorem span_cases (p : α → Bool) (l : List α) :
    (l.dropWhile p = [] ∧ l.takeWhile p = l) ∨
      ∃ a rest, l.dropWhile p = a :: rest ∧ p a = false ∧ l = l.takeWhile p ++ a :: rest := by
  have hsplit := List.takeWhile_append_dropWhile (p := p) (l := l)
  cases hd : l.dropWhile p with
  | nil => exact .inl ⟨rfl, by simpa [hd] using hsplit⟩
  | cons a rest =>
    have ha := List.head?_dropWhile_not p l
    rw [hd] at hsplit ha
    exact .inr ⟨a, rest, rfl, by simpa using ha, hsplit.symm⟩

theorem takeWhile_append_cons {w l : List α} {a : α} (hw : ∀ x ∈ w, p x) (ha : p a = false) :
    (w ++ a :: l).takeWhile p = w := by
  rw [List.takeWhile_append_of_pos hw]; simp [ha]

theorem dropWhile_append_cons {w l : List α} {a : α} (hw : ∀ x ∈ w, p x) (ha : p a = false) :
    (w ++ a :: l).dropWhile p = a :: l := by
  rw [List.dropWhile_append_of_pos hw]; simp [ha]

/-- The non-empty blocks of `l` between separators. -/
def words (p : α → Bool) (l : List α) : List (List α) := (l.splitOnP p).filter fun w => !w.isEmpty

@[simp] theorem words_nil : words p [] = [] := by simp [words]

theorem words_cons_sep {a : α} {l : List α} (h : p a) : words p (a :: l) = words p l := by
  simp [words, List.splitOnP_cons_eq_if_modifyHead, h]

theorem words_dropWhile (l : List α) : words p (l.dropWhile p) = words p l := by
  induction l with
  | nil => rfl
  | cons a l ih =>
    by_cases h : p a
    · rw [List.dropWhile_cons_of_pos h, ih, words_cons_sep h]
    · rw [List.dropWhile_cons_of_neg h]

theorem words_of_forall {w : List α} (hw : ∀ x ∈ w, p x = false) (hne : w ≠ []) : words p w = [w] := by
  rw [words, List.splitOnP_eq_singleton hw]
  simp [hne]

theorem words_append_sep {w l : List α} {a : α} (hw : ∀ x ∈ w, p x = false) (hne : w ≠ []) (ha : p a) :
    words p (w ++ a :: l) = w :: words p l := by
  rw [words, List.splitOnP_append_cons_of_forall_mem hw a ha]
  simp [words, hne]

theorem splitOnP_append_sep {a : α} (l : List α) (ha : p a) :
    (l ++ [a]).splitOnP p = l.splitOnP p ++ [[]] := by
  induction l with
  | nil => simp [List.splitOnP_cons_eq_if_modifyHead, ha]
  | cons b l ih =>
    rw [List.cons_append, List.splitOnP_cons_eq_if_modifyHead, List.splitOnP_cons_eq_if_modifyHead, ih]
    split
    · rfl
    · cases hl : l.splitOnP p with
      | nil => exact absurd hl (List.splitOnP_ne_nil p l)
      | cons w ws => rfl

theorem words_append_singleton {a : α} (l : List α) (ha : p a) : words p (l ++ [a]) = words p l := by
  rw [words, splitOnP_append_sep l ha, List.filter_append]
  simp [words]

theorem of_mem_splitOnP {w l : List α} (h : w ∈ l.splitOnP p) : ∀ x ∈ w, p x = false := by
  induction l generalizing w with
  | nil => simp_all
  | cons a l ih =>
    rw [List.splitOnP_cons_eq_if_modifyHead] at h
    split at h
    · rcases List.mem_cons.1 h with rfl | h
      · simp
      · exact ih h
    · rename_i ha
      -- `a` joins the first block of `l`
      cases hl : l.splitOnP p with
      | nil => exact absurd hl (List.splitOnP_ne_nil p l)
      | cons b bs =>
        rw [hl, List.modifyHead_cons] at h
        rcases List.mem_cons.1 h with rfl | h
        · intro x hx
          rcases List.mem_cons.1 hx with rfl | hx
          · simpa using ha
          · exact ih (hl ▸ List.mem_cons_self) x hx
        · exact ih (hl ▸ List.mem_cons_of_mem _ h)

theorem of_mem_words {w l : List α} (h : w ∈ words p l) : w ≠ [] ∧ ∀ x ∈ w, p x = false := by
  obtain ⟨hm, hne⟩ := List.mem_filter.1 h
  exact ⟨by simpa using hne, of_mem_splitOnP hm⟩

end Words
