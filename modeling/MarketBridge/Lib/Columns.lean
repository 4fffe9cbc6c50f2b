import Mathlib.Data.List.DropRight

/-!
# Texts in columns

A field pads a text with blanks to its width, and a text that does not end in a blank is read back from it. Blocks
of one width are told apart without a separator. Lines of one width still have it after they have been joined and
split, exactly when none of them holds the line end itself.
-/

namespace Columns

variable {α : Type*}

/-- A text in a field of the given width; a text that is longer stays as it is. -/
def field (blank : α) (width : Nat) (text : List α) : List α :=
  text ++ List.replicate (width - text.length) blank

section

variable {blank : α} {width : Nat} {text : List α}

theorem length_field (h : text.length ≤ width) : (field blank width text).length = width := by
  rw [field, List.length_append, List.length_replicate, Nat.add_sub_cancel' h]

theorem mem_field {b : α} (hb : b ≠ blank) : b ∈ field blank width text ↔ b ∈ text := by
  rw [field, List.mem_append, List.mem_replicate]
  exact or_iff_left fun h => hb h.2

theorem rdropWhile_append_blanks {p : α → Bool} (hp : p blank = true) (text : List α) (n : Nat) :
    (text ++ List.replicate n blank).rdropWhile p = text.rdropWhile p := by
  induction n with
  | zero => rw [List.replicate_zero, List.append_nil]
  | succ n ih => rw [List.replicate_succ', ← List.append_assoc, List.rdropWhile_concat_pos _ _ _ hp, ih]

/-- A text as it is read from a field. -/
def read [DecidableEq α] (blank : α) (cell : List α) : List α := cell.rdropWhile fun b => decide (b = blank)

theorem read_field [DecidableEq α] (h : text.getLast? ≠ some blank) :
    read blank (field blank width text) = text := by
  rw [read, field, rdropWhile_append_blanks (p := fun b => decide (b = blank)) (decide_eq_true rfl),
    List.rdropWhile_eq_self_iff]
  intro hne hlast
  rw [decide_eq_true_iff] at hlast
  exact h ((List.getLast?_eq_some_getLast hne).trans (congrArg some hlast))

end

/-! ### Lines of one width -/

/-- Lines that are ended one by one, and a last one. -/
theorem flatMap_lines (x : α) (ls : List (List α)) (l : List α) :
    ls.flatMap (fun l => l ++ [x]) ++ l = [x].intercalate (ls ++ [l]) := by
  induction ls with
  | nil => simp
  | cons l' ls ih =>
    obtain ⟨l'', ls', he⟩ := List.exists_cons_of_ne_nil (l := ls ++ [l]) (by simp)
    rw [List.flatMap_cons, List.append_assoc, ih, List.cons_append, he, List.intercalate_cons_cons]

/-- Blocks of one width can be told apart. -/
theorem flatMap_blocks {β : Type*} {f : β → List α} {w : Nat} {rs rs' : List β} (hw : 0 < w)
    (h : ∀ r ∈ rs, (f r).length = w) (h' : ∀ r ∈ rs', (f r).length = w)
    (he : rs.flatMap f = rs'.flatMap f) : rs.map f = rs'.map f := by
  induction rs generalizing rs' with
  | nil =>
    cases rs' with
    | nil => rfl
    | cons r' rs' =>
      have hlen := congrArg List.length he
      rw [List.flatMap_nil, List.flatMap_cons, List.length_append, h' r' (by simp), List.length_nil] at hlen
      omega
  | cons r rs ih =>
    cases rs' with
    | nil =>
      have hlen := congrArg List.length he
      rw [List.flatMap_nil, List.flatMap_cons, List.length_append, h r (by simp), List.length_nil] at hlen
      omega
    | cons r' rs' =>
      rw [List.forall_mem_cons] at h h'
      rw [List.flatMap_cons, List.flatMap_cons] at he
      obtain ⟨hr, hrs⟩ := List.append_inj he (h.1.trans h'.1.symm)
      rw [List.map_cons, List.map_cons, hr, ih h.2 h'.2 hrs]

section

variable [BEq α] [LawfulBEq α] {x : α}

theorem splitOn_intercalate_eq {ls : List (List α)} (h : ls ≠ []) :
    ([x].intercalate ls).splitOn x = ls.flatMap (·.splitOn x) := by
  induction ls with
  | nil => exact absurd rfl h
  | cons l ls ih =>
    cases ls with
    | nil => simp
    | cons l' ls =>
      have happ : [x].intercalate (l :: l' :: ls) = l ++ x :: [x].intercalate (l' :: ls) := by simp
      rw [happ, List.splitOn_append_cons_self, ih (by simp)]
      rfl

/-- A line that holds the line end begins with a shorter one. -/
theorem exists_shorter {l : List α} (h : x ∈ l) : ∃ p ∈ l.splitOn x, p.length < l.length := by
  obtain ⟨pre, post, rfl, hpre⟩ := List.eq_append_cons_of_mem h
  refine ⟨pre, ?_, by simp⟩
  rw [List.splitOn_append_cons_self, List.splitOn_eq_singleton hpre]
  exact List.mem_append_left _ (List.mem_singleton_self _)

theorem lines_width_iff {ls : List (List α)} {width : Nat} (h : ls ≠ []) (hw : ∀ l ∈ ls, l.length = width) :
    (∀ l ∈ ([x].intercalate ls).splitOn x, l.length = width) ↔ ∀ l ∈ ls, x ∉ l := by
  rw [splitOn_intercalate_eq h]
  constructor
  · intro hall l hl hx
    obtain ⟨p, hp, hlt⟩ := exists_shorter hx
    have hpw := hall p (List.mem_flatMap.2 ⟨l, hl, hp⟩)
    have hlw := hw l hl
    omega
  · intro hall l hl
    obtain ⟨l', hl', hm⟩ := List.mem_flatMap.1 hl
    rw [List.splitOn_eq_singleton (hall l' hl')] at hm
    rw [List.mem_singleton.1 hm]
    exact hw l' hl'

end

end Columns
