/-
LiveProbe/PathSuffix.lean

Paths that end with other paths.

A text ends with another at a separator exactly when its components end with the
components of the other.
-/
import Mathlib.Data.List.Infix

namespace List

variable {α : Type*}

theorem intercalate_append_of_ne_nil (x : α) {l m : List (List α)} (hl : l ≠ []) (hm : m ≠ []) :
    [x].intercalate (l ++ m) = [x].intercalate l ++ x :: [x].intercalate m := by
  induction l with
  | nil => exact absurd rfl hl
  | cons p l ih =>
    cases l with
    | nil =>
      rw [singleton_append, intercalate_cons_of_ne_nil hm, intercalate_singleton, append_assoc]
      rfl
    | cons q l =>
      have hcons : q :: l ++ m ≠ [] := cons_ne_nil q (l ++ m)
      rw [cons_append, intercalate_cons_of_ne_nil hcons, ih (cons_ne_nil q l), intercalate_cons_of_ne_nil (cons_ne_nil q l)]
      simp only [append_assoc]

variable [BEq α] [LawfulBEq α]

/-- The components of a text determine it. -/
theorem splitOn_injective (x : α) : Function.Injective (splitOn x) := by
  intro s t h
  have hs := congrArg [x].intercalate h
  rwa [intercalate_splitOn, intercalate_splitOn] at hs

/-- A text ends with another at a separator when its components end with those of the other. -/
theorem splitOn_suffix_iff (x : α) {s t : List α} : s.splitOn x <:+ t.splitOn x ↔ s = t ∨ x :: s <:+ t := by
  constructor
  · rintro ⟨l, hl⟩
    cases l with
    | nil => exact .inl (splitOn_injective x hl)
    | cons p l =>
      have ht := congrArg [x].intercalate hl
      rw [intercalate_append_of_ne_nil x (cons_ne_nil p l) (splitOn_ne_nil x s), intercalate_splitOn,
        intercalate_splitOn] at ht
      exact .inr ⟨_, ht⟩
  · rintro (rfl | ⟨u, rfl⟩)
    · exact suffix_rfl
    · rw [splitOn_append_cons_self]
      exact suffix_append _ _

end List
