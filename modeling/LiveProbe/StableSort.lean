/-
LiveProbe/StableSort.lean

Where an element ends up in a stable sort.

Of what stands before it in the list, the elements that are no greater go ahead
of it; of what stands after it, only the smaller ones do.
-/
import Mathlib.Data.List.Basic
import Mathlib.Data.List.Nodup

namespace List

variable {α : Type*} {le : α → α → Bool}

/-- Sorting by relations that agree on the list comes to the same. -/
theorem mergeSort_congr {r s : α → α → Bool} {l : List α} (h : ∀ a ∈ l, ∀ b ∈ l, r a b = s a b) :
    l.mergeSort r = l.mergeSort s := by
  have hmap := List.map_mergeSort (f := id) (l := l) h
  rw [List.map_id, List.map_id] at hmap
  exact hmap

section

variable (trans : ∀ a b c, le a b = true → le b c = true → le a c = true)
  (total : ∀ a b, (le a b || le b a) = true)

include trans total in
/-- The rank of the first element. -/
theorem mergeSort_head (x : α) (b : List α) :
    ∃ p q, (x :: b).mergeSort le = p ++ x :: q ∧ p.length = b.countP fun y => !le x y := by
  obtain ⟨p, q, hcons, hrest, hbefore⟩ := mergeSort_cons trans total x b
  refine ⟨p, q, hcons, ?_⟩
  have hsorted := pairwise_mergeSort trans total (x :: b)
  rw [hcons] at hsorted
  have hafter : ∀ y ∈ q, le x y = true :=
    (List.pairwise_cons.mp (List.pairwise_append.mp hsorted).2.1).1
  have hcount : (b.mergeSort le).countP (fun y => !le x y) = p.length := by
    rw [hrest, List.countP_append, List.countP_eq_length.mpr hbefore, List.countP_eq_zero.mpr, Nat.add_zero]
    intro y hy
    rw [hafter y hy]
    decide
  rw [← hcount]
  exact (mergeSort_perm b le).countP_eq _

include trans total in
/-- **The rank of an element in the sorted list.** -/
theorem mergeSort_middle (a : List α) (x : α) (b : List α) :
    ∃ p q, (a ++ x :: b).mergeSort le = p ++ x :: q ∧
      p.length = (a.countP fun y => le y x) + b.countP fun y => !le x y := by
  induction a with
  | nil =>
    rw [List.countP_nil, Nat.zero_add]
    exact mergeSort_head trans total x b
  | cons c a ih =>
    obtain ⟨p, q, hrest, hlength⟩ := ih
    obtain ⟨l₁, l₂, hcons, hsplit, hbefore⟩ := mergeSort_cons trans total c (a ++ x :: b)
    rw [hrest] at hsplit
    show ∃ p q, (c :: (a ++ x :: b)).mergeSort le = p ++ x :: q ∧ _
    have hsorted := pairwise_mergeSort trans total (c :: (a ++ x :: b))
    rw [hcons] at hsorted ⊢
    have hafter : ∀ y ∈ l₂, le c y = true :=
      (List.pairwise_cons.mp (List.pairwise_append.mp hsorted).2.1).1
    rw [List.countP_cons]
    rcases List.append_eq_append_iff.mp hsplit with ⟨l, hl₁, hl⟩ | ⟨l, hp, hl⟩
    · cases l with
      | nil =>
        -- `c` goes right before `x`
        rw [List.append_nil] at hl₁
        rw [List.nil_append] at hl
        refine ⟨p ++ [c], q, ?_, ?_⟩
        · rw [hl₁, ← hl, List.append_assoc]
          rfl
        · have hle := hafter x (hl ▸ List.mem_cons_self)
          rw [List.length_append, hlength, if_pos hle]
          exact Nat.add_right_comm _ _ _
      | cons y l =>
        -- `c` goes after `x`
        obtain ⟨rfl, rfl⟩ := List.cons.inj hl
        refine ⟨p, l ++ c :: l₂, ?_, ?_⟩
        · rw [hl₁, List.append_assoc]
          rfl
        · have hle := hbefore x (hl₁ ▸ List.mem_append_right _ List.mem_cons_self)
          rw [hlength, if_neg (fun h => by rw [h] at hle; cases hle), Nat.add_zero]
    · -- `c` goes before `x`
      refine ⟨l₁ ++ c :: l, q, ?_, ?_⟩
      · rw [hl, List.append_assoc]
        rfl
      · have hle := hafter x (hl ▸ List.mem_append_right _ List.mem_cons_self)
        have hlen : (l₁ ++ c :: l).length = p.length + 1 := by
          rw [hp, List.length_append, List.length_append]
          rfl
        rw [hlen, hlength, if_pos hle]
        exact Nat.add_right_comm _ _ _

include trans total in
/-- An element is among the first `n` when fewer than `n` go ahead of it. -/
theorem mem_take_mergeSort {κ : Type*} (key : α → κ) {a b : List α} {x : α}
    (hnodup : ((a ++ x :: b).map key).Nodup) (n : ℕ) :
    key x ∈ (((a ++ x :: b).mergeSort le).take n).map key ↔
      (a.countP fun y => le y x) + (b.countP fun y => !le x y) < n := by
  obtain ⟨p, q, hsort, hlength⟩ := mergeSort_middle trans total a x b
  have hperm := (mergeSort_perm (a ++ x :: b) le).map key
  rw [hsort] at hperm ⊢
  rw [← hlength]
  have hdistinct := hperm.nodup_iff.mpr hnodup
  rw [List.map_append, List.map_cons, List.nodup_append] at hdistinct
  constructor
  · intro hmem
    by_contra hlarge
    rw [List.take_append_of_le_length (Nat.not_lt.mp hlarge)] at hmem
    have hp : key x ∈ p.map key := List.map_subset key (List.take_subset n p) hmem
    exact hdistinct.2.2 _ hp _ List.mem_cons_self rfl
  · intro hsmall
    refine List.mem_map_of_mem ?_
    rw [List.take_append, List.mem_append]
    refine .inr ?_
    obtain ⟨m, hm⟩ := Nat.exists_eq_add_of_lt hsmall
    rw [show n - p.length = m + 1 by omega, List.take_succ_cons]
    exact List.mem_cons_self

/-- A filter that takes nothing beyond the first `n`. -/
theorem length_filter_le_of_drop {l : List α} {p : α → Bool} {n : ℕ} (h : ∀ x ∈ l.drop n, p x = false) :
    (l.filter p).length ≤ n := by
  have hdrop : (l.drop n).filter p = [] := by
    apply List.filter_eq_nil_iff.mpr
    intro x hx
    rw [h x hx]
    decide
  rw [← List.take_append_drop n l, List.filter_append, hdrop, List.append_nil]
  exact Nat.le_trans (List.length_filter_le p _) (List.length_take_le n l)

/-- What is beyond the first `n` is no less than what is among them. -/
theorem le_of_mem_take_drop {l : List α} {r : α → α → Prop} (h : l.Pairwise r) (n : ℕ) {x y : α}
    (hx : x ∈ l.take n) (hy : y ∈ l.drop n) : r x y := by
  rw [← List.take_append_drop n l] at h
  exact (List.pairwise_append.mp h).2.2 x hx y hy

end

end List
