import Mathlib.Data.List.Basic

/-!
# A block of lines and a body

A line end is the pair `cr lf`. `unlines` ends each line with one; a message is such a block, an empty line
and a body. `splitHead` cuts a text at its first empty line, `splitLines` at every line end. Both give back
what was printed when the lines are not empty and have no `cr`.
-/

namespace Lines

variable {α : Type*}

def unlines (cr lf : α) (ls : List (List α)) : List α := ls.flatMap fun l => l ++ [cr, lf]

@[simp] theorem unlines_nil (cr lf : α) : unlines cr lf [] = [] := rfl

@[simp] theorem unlines_cons (cr lf : α) (l : List α) (ls : List (List α)) :
    unlines cr lf (l :: ls) = l ++ cr :: lf :: unlines cr lf ls := by simp [unlines]

variable [DecidableEq α]

section

variable (cr lf : α)

/-- The text before the first `cr lf cr lf`, and the text after it. -/
def splitHead : List α → Option (List α × List α)
  | [] => none
  | a :: s =>
    if [cr, lf, cr, lf] <+: a :: s then some ([], s.drop 3)
    else (splitHead s).map fun p => (a :: p.1, p.2)

/-- The lines of a text without its last line end. -/
def splitLines : List α → List (List α)
  | [] => [[]]
  | a :: s =>
    match s with
    | [] => [[a]]
    | b :: s' =>
      if a = cr ∧ b = lf then [] :: splitLines s'
      else (splitLines (b :: s')).modifyHead (a :: ·)

end

variable {cr lf : α}

/-! ### The first empty line -/

theorem splitHead_empty (body : List α) : splitHead cr lf (cr :: lf :: cr :: lf :: body) = some ([], body) := by
  simp [splitHead]

theorem splitHead_cons {a : α} {s : List α} (h : ¬ [cr, lf, cr, lf] <+: a :: s) :
    splitHead cr lf (a :: s) = (splitHead cr lf s).map fun p => (a :: p.1, p.2) := by
  rw [splitHead, if_neg h]

theorem splitHead_append {l : List α} (hl : cr ∉ l) (s : List α) :
    splitHead cr lf (l ++ s) = (splitHead cr lf s).map fun p => (l ++ p.1, p.2) := by
  induction l with
  | nil => simp
  | cons a l ih =>
    rw [List.mem_cons, not_or] at hl
    have hp : ¬ [cr, lf, cr, lf] <+: a :: (l ++ s) := fun h => hl.1 (List.cons_prefix_cons.1 h).1
    rw [List.cons_append, splitHead_cons hp, ih hl.2, Option.map_map]
    rfl

/-- A line end that another line follows. -/
theorem splitHead_lineEnd (hne : cr ≠ lf) {l : List α} (hl : cr ∉ l) (hl' : l ≠ []) (s : List α) :
    splitHead cr lf (cr :: lf :: (l ++ s)) =
      (splitHead cr lf (l ++ s)).map fun p => (cr :: lf :: p.1, p.2) := by
  obtain ⟨a, l, rfl⟩ := List.exists_cons_of_ne_nil hl'
  have ha : cr ≠ a := fun h => hl (h ▸ List.mem_cons_self)
  have h₁ : ¬ [cr, lf, cr, lf] <+: cr :: lf :: (a :: l ++ s) := by
    simp [List.cons_prefix_cons, ha]
  have h₂ : ¬ [cr, lf, cr, lf] <+: lf :: (a :: l ++ s) := by
    simp [List.cons_prefix_cons, hne]
  rw [splitHead_cons h₁, splitHead_cons h₂, Option.map_map]
  rfl

/-- The first empty line of a message is the one after its block, whatever the body holds. -/
theorem splitHead_unlines (hne : cr ≠ lf) {l : List α} {ls : List (List α)}
    (h : ∀ l' ∈ l :: ls, l' ≠ [] ∧ cr ∉ l') (body : List α) :
    splitHead cr lf (unlines cr lf (l :: ls) ++ cr :: lf :: body) =
      some (List.intercalate [cr, lf] (l :: ls), body) := by
  induction ls generalizing l with
  | nil =>
    have hl := (h l List.mem_cons_self).2
    rw [unlines_cons, unlines_nil, List.append_assoc, splitHead_append hl]
    simp [splitHead_empty, List.intercalate]
  | cons l' ls ih =>
    obtain ⟨⟨-, hl⟩, hls⟩ := List.forall_mem_cons.1 h
    obtain ⟨hl'₁, hl'₂⟩ := hls l' List.mem_cons_self
    have happ : unlines cr lf (l :: l' :: ls) ++ cr :: lf :: body =
        l ++ cr :: lf :: (l' ++ cr :: lf :: (unlines cr lf ls ++ cr :: lf :: body)) := by simp
    have hrest : l' ++ cr :: lf :: (unlines cr lf ls ++ cr :: lf :: body) =
        unlines cr lf (l' :: ls) ++ cr :: lf :: body := by simp
    rw [happ, splitHead_append hl, splitHead_lineEnd hne hl'₂ hl'₁, hrest, ih hls]
    simp [List.intercalate, List.intersperse]

/-! ### The lines -/

theorem splitLines_cons {a : α} {s : List α} (h : a ≠ cr) :
    splitLines cr lf (a :: s) = (splitLines cr lf s).modifyHead (a :: ·) := by
  cases s with
  | nil => rfl
  | cons b s => rw [splitLines, if_neg fun hab => h hab.1]

theorem splitLines_append {l : List α} (hl : cr ∉ l) (s : List α) :
    splitLines cr lf (l ++ s) = (splitLines cr lf s).modifyHead (l ++ ·) := by
  induction l with
  | nil =>
    show splitLines cr lf s = (splitLines cr lf s).modifyHead id
    rw [List.modifyHead_id]; rfl
  | cons a l ih =>
    rw [List.mem_cons, not_or] at hl
    rw [List.cons_append, splitLines_cons (Ne.symm hl.1), ih hl.2, List.modifyHead_modifyHead]
    rfl

theorem splitLines_intercalate {l : List α} {ls : List (List α)} (h : ∀ l' ∈ l :: ls, cr ∉ l') :
    splitLines cr lf (List.intercalate [cr, lf] (l :: ls)) = l :: ls := by
  induction ls generalizing l with
  | nil =>
    have hl : splitLines cr lf (l ++ []) = _ := splitLines_append (h l List.mem_cons_self) []
    simpa [List.intercalate, splitLines] using hl
  | cons l' ls ih =>
    obtain ⟨hl, hls⟩ := List.forall_mem_cons.1 h
    have happ : List.intercalate [cr, lf] (l :: l' :: ls) =
        l ++ cr :: lf :: List.intercalate [cr, lf] (l' :: ls) := by
      simp [List.intercalate, List.intersperse]
    rw [happ, splitLines_append hl, splitLines, if_pos ⟨rfl, rfl⟩, ih hls]
    simp

end Lines
