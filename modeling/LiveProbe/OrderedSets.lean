/-
LiveProbe/OrderedSets.lean

Sets as lists in order: what a `BTreeSet` does.
-/
import Mathlib.Data.List.Sort

namespace OrderedSet

/-- A `Set` of ECMAScript, as the list of what was added first. -/
theorem nodup_eraseDups {α : Type*} [BEq α] [LawfulBEq α] (l : List α) : l.eraseDups.Nodup := by
  induction hn : l.length using Nat.strong_induction_on generalizing l with
  | _ n ih =>
    cases l with
    | nil => simp
    | cons a l =>
      rw [List.eraseDups_cons, List.nodup_cons]
      refine ⟨by simp [List.mem_eraseDups], ih _ ?_ _ rfl⟩
      subst hn
      exact Nat.lt_succ_of_le (List.length_filter_le _ _)

variable {α : Type*} [LinearOrder α]

/-- `BTreeSet::insert` -/
def insert (x : α) (set : List α) : List α :=
  if x ∈ set then set else set.orderedInsert (· ≤ ·) x

/-- `collect` -/
def ofList (l : List α) : List α := l.foldl (fun set x => insert x set) []

theorem mem_insert {x y : α} {set : List α} : y ∈ insert x set ↔ y = x ∨ y ∈ set := by
  unfold insert
  split
  · next hmem => exact ⟨.inr, fun h => h.elim (fun he => he ▸ hmem) id⟩
  · exact List.mem_orderedInsert _

theorem nodup_insert {x : α} {set : List α} (h : set.Nodup) : (insert x set).Nodup := by
  unfold insert
  split
  · exact h
  · next hmem => exact (List.perm_orderedInsert _ x set).nodup_iff.mpr (List.nodup_cons.mpr ⟨hmem, h⟩)

theorem mem_foldl_insert {y : α} {l set : List α} :
    y ∈ l.foldl (fun set x => insert x set) set ↔ y ∈ set ∨ y ∈ l := by
  induction l generalizing set with
  | nil => exact ⟨.inl, fun h => h.resolve_right List.not_mem_nil⟩
  | cons x l ih => rw [List.foldl_cons, ih, mem_insert, List.mem_cons, or_comm (a := y = x), or_assoc]

theorem nodup_foldl_insert {l set : List α} (h : set.Nodup) :
    (l.foldl (fun set x => insert x set) set).Nodup := by
  induction l generalizing set with
  | nil => exact h
  | cons x l ih => exact ih (nodup_insert h)

theorem mem_ofList {y : α} {l : List α} : y ∈ ofList l ↔ y ∈ l :=
  mem_foldl_insert.trans ⟨fun h => h.resolve_left List.not_mem_nil, .inr⟩

theorem nodup_ofList (l : List α) : (ofList l).Nodup := nodup_foldl_insert List.nodup_nil

/-- A set has more than one element when two of them differ. -/
theorem one_lt_length_iff {β : Type*} {set : List β} (h : set.Nodup) : 1 < set.length ↔ ∃ a ∈ set, ∃ b ∈ set, a ≠ b := by
  constructor
  · intro hlength
    match set, h, hlength with
    | a :: b :: _, h, _ =>
      have hne : a ≠ b := fun he => (List.nodup_cons.mp h).1 (he ▸ List.mem_cons_self)
      exact ⟨a, List.mem_cons_self, b, List.mem_cons_of_mem _ List.mem_cons_self, hne⟩
  · rintro ⟨a, ha, b, hb, hne⟩
    match set, ha, hb with
    | [c], ha, hb => exact absurd ((List.mem_singleton.mp ha).trans (List.mem_singleton.mp hb).symm) hne
    | _ :: _ :: _, _, _ => exact Nat.succ_lt_succ (Nat.succ_pos _)

end OrderedSet
