/-
LiveProbe/Comparators.lean

Sorting by a comparison function that returns a number.

A comparison is consistent when its signs are those of a total preorder.  Consistent
comparisons are put together by asking the next one where the first cannot tell
(`Consistent.lex`).  The sort is stable (`pair_sublist_sort`), and where no two
elements are equal to the comparison it does not depend on the order of the list
(`eq_of_perm`).
-/
import Mathlib.Data.List.Sort

namespace Comparator

variable {α β : Type*}

/-- The comparison is that of a total preorder. -/
structure Consistent (compare : α → α → ℤ) : Prop where
  swap : ∀ a b, compare a b < 0 ↔ 0 < compare b a
  trans : ∀ a b c, compare a b ≤ 0 → compare b c ≤ 0 → compare a c ≤ 0

namespace Consistent

variable {compare compare' : α → α → ℤ}

theorem le_iff (h : Consistent compare) (a b : α) : compare a b ≤ 0 ↔ 0 ≤ compare b a := by
  rw [← not_lt, ← not_lt, h.swap b a]

theorem total (h : Consistent compare) (a b : α) : compare a b ≤ 0 ∨ compare b a ≤ 0 := by
  rw [h.le_iff b a]
  exact le_total _ _

theorem eq_symm (h : Consistent compare) {a b : α} (hab : compare a b = 0) : compare b a = 0 :=
  le_antisymm ((h.le_iff b a).mpr hab.ge) ((h.le_iff a b).mp hab.le)

theorem lt_of_lt_of_le (h : Consistent compare) {a b c : α} (hab : compare a b < 0) (hbc : compare b c ≤ 0) :
    compare a c < 0 := by
  by_contra hac
  have hca := (h.le_iff c a).mpr (not_lt.mp hac)
  exact absurd ((h.swap a b).mp hab) (not_lt.mpr (h.trans b c a hbc hca))

theorem lt_of_le_of_lt (h : Consistent compare) {a b c : α} (hab : compare a b ≤ 0) (hbc : compare b c < 0) :
    compare a c < 0 := by
  by_contra hac
  have hca := (h.le_iff c a).mpr (not_lt.mp hac)
  exact absurd ((h.swap b c).mp hbc) (not_lt.mpr (h.trans c a b hca hab))

theorem eq_trans (h : Consistent compare) {a b c : α} (hab : compare a b = 0) (hbc : compare b c = 0) :
    compare a c = 0 := by
  refine le_antisymm (h.trans a b c hab.le hbc.le) ?_
  rw [← h.le_iff]
  exact h.trans c b a (h.eq_symm hbc).le (h.eq_symm hab).le

/-- The difference of two numbers. -/
theorem sub (f : α → ℤ) : Consistent fun a b => f a - f b where
  swap a b := by omega
  trans a b c hab hbc := by omega

/-- A comparison of what is computed from the elements. -/
theorem comap (h : Consistent compare) (f : β → α) : Consistent fun a b => compare (f a) (f b) where
  swap a b := h.swap (f a) (f b)
  trans a b c := h.trans (f a) (f b) (f c)

/-- The next comparison decides where the first does not. -/
theorem lex (h : Consistent compare) (h' : Consistent compare') :
    Consistent fun a b => if compare a b ≠ 0 then compare a b else compare' a b where
  swap a b := by
    by_cases hab : compare a b = 0
    · rw [if_neg (not_not.mpr hab), if_neg (not_not.mpr (h.eq_symm hab))]
      exact h'.swap a b
    · rw [if_pos hab, if_pos fun hba => hab (h.eq_symm hba)]
      exact h.swap a b
  trans a b c hab hbc := by
    by_cases hab₀ : compare a b = 0
    · rw [if_neg (not_not.mpr hab₀)] at hab
      by_cases hbc₀ : compare b c = 0
      · rw [if_neg (not_not.mpr hbc₀)] at hbc
        rw [if_neg (not_not.mpr (h.eq_trans hab₀ hbc₀))]
        exact h'.trans a b c hab hbc
      · rw [if_pos hbc₀] at hbc
        have hac := h.lt_of_le_of_lt hab₀.le (lt_of_le_of_ne hbc hbc₀)
        rw [if_pos hac.ne]
        exact hac.le
    · rw [if_pos hab₀] at hab
      have hbc' : compare b c ≤ 0 := by
        by_cases hbc₀ : compare b c = 0
        · exact hbc₀.le
        · rwa [if_pos hbc₀] at hbc
      have hac := h.lt_of_lt_of_le (lt_of_le_of_ne hab hab₀) hbc'
      rw [if_pos hac.ne]
      exact hac.le

end Consistent

/-! ### Sorting -/

variable (compare : α → α → ℤ)

/-- `Array.prototype.sort`, which is stable. -/
def sort (l : List α) : List α := l.insertionSort fun a b => compare a b ≤ 0

theorem sort_perm (l : List α) : (sort compare l).Perm l := List.perm_insertionSort _ l

variable {compare}

theorem pairwise_sort (h : Consistent compare) (l : List α) : (sort compare l).Pairwise fun a b => compare a b ≤ 0 := by
  have : Std.Total fun a b => compare a b ≤ 0 := ⟨h.total⟩
  have : IsTrans α fun a b => compare a b ≤ 0 := ⟨h.trans⟩
  exact List.pairwise_insertionSort _ l

/-- Elements that are equal to the comparison keep their order. -/
theorem pair_sublist_sort {l : List α} {a b : α} (hl : [a, b].Sublist l) (hab : compare a b = 0) :
    [a, b].Sublist (sort compare l) := List.sublist_insertionSort (List.pairwise_pair.mpr hab.le) hl

/-- Sorted lists of the same elements are the same when no two elements are equal to the comparison. -/
theorem eq_of_perm (h : Consistent compare) {l l' : List α} (hl : l.Pairwise fun a b => compare a b ≤ 0)
    (hl' : l'.Pairwise fun a b => compare a b ≤ 0) (hperm : l.Perm l')
    (hdistinct : ∀ a ∈ l, ∀ b ∈ l, compare a b = 0 → a = b) : l = l' :=
  List.Perm.eq_of_pairwise (fun a b ha hb hab hba => hdistinct a ha b (hperm.mem_iff.mpr hb)
    (le_antisymm hab ((h.le_iff b a).mp hba))) hl hl' hperm

/-- In a list without duplicates only one of two elements comes first. -/
theorem not_pair_sublist {l : List α} {a b : α} (hl : l.Nodup) (hab : [a, b].Sublist l) : ¬ [b, a].Sublist l := by
  intro hba
  have hne : a ≠ b := fun heq => by
    have hpair := hl.sublist hab
    rw [heq] at hpair
    exact (List.nodup_cons.mp hpair).1 List.mem_cons_self
  induction l with
  | nil => cases hab
  | cons c l ih =>
    obtain ⟨hc, hl⟩ := List.nodup_cons.mp hl
    cases hab with
    | cons _ hab =>
      cases hba with
      | cons _ hba => exact ih hl hab hba
      | cons_cons _ ha => exact hc (hab.subset (List.mem_cons_of_mem _ List.mem_cons_self))
    | cons_cons _ hb =>
      cases hba with
      | cons _ hba => exact hc (hba.subset (List.mem_cons_of_mem _ List.mem_cons_self))
      | cons_cons _ ha => exact hne rfl

end Comparator
