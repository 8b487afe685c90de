/-
LiveProbe/Upserts.lean

A table of a relational database: rows under the primary key made of their own
columns.  `upsert` is `insert … on conflict … do update`, with a function that
makes the row that stays of the one there is and the one that is inserted.

What holds of the rows there are and of those inserted holds afterwards
(`Holds.upsertAll`), and a key that is not inserted keeps its row
(`get?_upsertAll_of_notMem`).  Where the inserted row replaces the one there
is, the table then holds what was inserted (`get?_upsertAll_overwrite`).
-/
import LiveProbe.JsMap
import Mathlib.Data.List.Perm.Subperm

/-- Rows under their primary key. -/
structure Table {κ α : Type*} [DecidableEq κ] (key : α → κ) where
  rows : JsMap κ α
  keyed : rows.All fun k row => key row = k

/-- What stays of two rows with one key. -/
structure Merge {κ α : Type*} (key : α → κ) where
  merge : α → α → α
  key_merge : ∀ old row, key old = key row → key (merge old row) = key row

namespace Merge

variable {κ α : Type*} {key : α → κ}

/-- The inserted row replaces the one there is. -/
def overwrite : Merge key := ⟨fun _ row => row, fun _ _ _ => rfl⟩

/-- The inserted row replaces the one there is, where the condition holds of the two. -/
def overwriteWhere (condition : α → α → Bool) : Merge key where
  merge old row := if condition old row then row else old
  key_merge old row h := by
    show key (if condition old row then row else old) = key row
    split
    · rfl
    · exact h

end Merge

/-- What is counted in one map is no more than in another where each entry that
counts in the one has one that counts in the other. -/
theorem JsMap.countP_values_le {κ α : Type*} [DecidableEq κ] {m m' : JsMap κ α} {p q : α → Bool}
    (h : ∀ k v, m.get? k = some v → p v = true → ∃ w, m'.get? k = some w ∧ q w = true) :
    m.values.countP p ≤ m'.values.countP q := by
  have hcount (m : JsMap κ α) (p : α → Bool) :
      m.values.countP p = ((m.entries.filter fun e => p e.2).map Prod.fst).length := by
    rw [JsMap.values, List.countP_map, List.countP_eq_length_filter, List.length_map]
    rfl
  rw [hcount m p, hcount m' q]
  have hnodup : ((m.entries.filter fun e => p e.2).map Prod.fst).Nodup :=
    m.nodup.sublist (List.filter_sublist.map Prod.fst)
  refine (List.subperm_of_subset hnodup fun k hk => ?_).length_le
  obtain ⟨⟨k, v⟩, hmem, rfl⟩ := List.mem_map.mp hk
  obtain ⟨hmem, hp⟩ := List.mem_filter.mp hmem
  obtain ⟨w, hw, hq⟩ := h k v (JsMap.get?_eq_some_iff.mpr hmem) hp
  exact List.mem_map.mpr ⟨(k, w), List.mem_filter.mpr ⟨JsMap.get?_eq_some_iff.mp hw, hq⟩, rfl⟩

namespace Table

variable {κ α : Type*} [DecidableEq κ] {key : α → κ}

instance : EmptyCollection (Table key) := ⟨∅, .empty⟩

instance : Inhabited (Table key) := ⟨∅⟩

def values (t : Table key) : List α := t.rows.values

def get? (t : Table key) (k : κ) : Option α := t.rows.get? k

def has (t : Table key) (k : κ) : Bool := (t.get? k).isSome

/-- `delete from … where …` -/
def deleteWhere (condition : α → Bool) (t : Table key) : Table key :=
  ⟨t.rows.filter fun _ row => !condition row, t.keyed.filter _⟩

def upsert (merge : Merge key) (t : Table key) (row : α) : Table key where
  rows := t.rows.set (key row) (((t.get? (key row)).map fun old => merge.merge old row).getD row)
  keyed := by
    refine t.keyed.set ?_
    rcases hold : t.get? (key row) with - | old
    · rfl
    · exact merge.key_merge old row (t.keyed _ _ hold)

def upsertAll (merge : Merge key) (rows : List α) (t : Table key) : Table key := rows.foldl (upsert merge) t

/-! ### Rows -/

variable {t : Table key} {merge : Merge key} {row : α} {rows : List α} {k : κ}

theorem key_of_get? (h : t.get? k = some row) : key row = k := t.keyed k row h

theorem mem_values_iff : row ∈ t.values ↔ t.get? (key row) = some row := by
  rw [values, JsMap.mem_values_iff]
  constructor
  · rintro ⟨k, h⟩
    have hget : t.get? k = some row := JsMap.get?_eq_some_iff.mpr h
    rw [key_of_get? hget]
    exact hget
  · exact fun h => ⟨key row, JsMap.get?_eq_some_iff.mp h⟩

theorem nodup_values (t : Table key) : (t.values.map key).Nodup := by
  have hkeys : t.values.map key = t.rows.keys := by
    rw [values, JsMap.values, JsMap.keys, List.map_map]
    refine List.map_congr_left fun e he => ?_
    exact t.keyed e.1 e.2 (JsMap.get?_eq_some_iff.mpr he)
  rw [hkeys]
  exact t.rows.nodup

theorem get?_empty (k : κ) : (∅ : Table key).get? k = none := rfl

theorem get?_deleteWhere (condition : α → Bool) (t : Table key) (k : κ) :
    (t.deleteWhere condition).get? k = (t.get? k).filter fun row => !condition row :=
  JsMap.get?_filter _ _ _

theorem get?_upsert (merge : Merge key) (t : Table key) (row : α) (k : κ) :
    (t.upsert merge row).get? k =
      if k = key row then some (((t.get? (key row)).map fun old => merge.merge old row).getD row) else t.get? k :=
  JsMap.get?_set _ _ _ _

theorem get?_upsertAll_of_notMem (h : k ∉ rows.map key) : (t.upsertAll merge rows).get? k = t.get? k := by
  induction rows generalizing t with
  | nil => rfl
  | cons row rows ih =>
    rw [List.map_cons, List.mem_cons, not_or] at h
    show ((t.upsert merge row).upsertAll merge rows).get? k = t.get? k
    rw [ih h.2, get?_upsert, if_neg h.1]

/-- A table that is written over holds the rows that were inserted. -/
theorem get?_upsertAll_overwrite (hrows : (rows.map key).Nodup) (h : row ∈ rows) :
    (t.upsertAll .overwrite rows).get? (key row) = some row := by
  induction rows generalizing t with
  | nil => cases h
  | cons row' rows ih =>
    rw [List.map_cons, List.nodup_cons] at hrows
    show ((t.upsert .overwrite row').upsertAll .overwrite rows).get? (key row) = some row
    rcases List.mem_cons.mp h with rfl | h
    · rw [get?_upsertAll_of_notMem hrows.1, get?_upsert, if_pos rfl]
      rcases t.get? (key row) with - | old <;> rfl
    · exact ih hrows.2 h

/-- No row goes. -/
theorem has_upsertAll (h : t.has k = true) : (t.upsertAll merge rows).has k = true := by
  induction rows generalizing t with
  | nil => exact h
  | cons row rows ih =>
    refine ih ?_
    rw [has, get?_upsert]
    split
    · rfl
    · exact h

/-! ### What holds of all rows -/

def Holds (P : α → Prop) (t : Table key) : Prop := ∀ row ∈ t.values, P row

variable {P : α → Prop}

theorem Holds.empty : (∅ : Table key).Holds P := fun _ h => by cases h

theorem Holds.get? (h : t.Holds P) (hk : t.get? k = some row) : P row := by
  refine h row (mem_values_iff.mpr ?_)
  rw [key_of_get? hk]
  exact hk

theorem holds_iff : t.Holds P ↔ ∀ k row, t.get? k = some row → P row :=
  ⟨fun h _ _ hk => h.get? hk, fun h row hrow => h (key row) row (mem_values_iff.mp hrow)⟩

theorem Holds.deleteWhere (h : t.Holds P) (condition : α → Bool) : (t.deleteWhere condition).Holds P := by
  rw [holds_iff]
  intro k row hrow
  rw [get?_deleteWhere, Option.filter_eq_some_iff] at hrow
  exact h.get? hrow.1

/-- What a merge keeps of two rows is kept by the table. -/
theorem Holds.upsertAll (h : t.Holds P) (hrows : ∀ row ∈ rows, P row)
    (hmerge : ∀ old row, P old → P row → P (merge.merge old row)) : (t.upsertAll merge rows).Holds P := by
  induction rows generalizing t with
  | nil => exact h
  | cons row rows ih =>
    have hrow : P row := hrows row List.mem_cons_self
    refine ih ?_ fun row' h' => hrows row' (List.mem_cons_of_mem row h')
    rw [holds_iff]
    intro k row' hk
    rw [get?_upsert] at hk
    split at hk
    · cases hk
      rcases hold : t.get? (key row) with - | old
      · exact hrow
      · exact hmerge old row (h.get? hold) hrow
    · exact h.get? hk

theorem Holds.overwriteAll (h : t.Holds P) (hrows : ∀ row ∈ rows, P row) : (t.upsertAll .overwrite rows).Holds P :=
  h.upsertAll hrows fun _ _ _ hrow => hrow

theorem Holds.overwriteWhere (h : t.Holds P) (hrows : ∀ row ∈ rows, P row) (condition : α → α → Bool) :
    (t.upsertAll (.overwriteWhere condition) rows).Holds P := by
  refine h.upsertAll hrows fun old row hold hrow => ?_
  show P (if condition old row then row else old)
  split
  · exact hrow
  · exact hold

/-! ### Rows as a map -/

/-- A map filled with the rows of a table, in any order, has them under their keys. -/
theorem get?_ofEntries {κ' : Type*} [DecidableEq κ'] {l : List α} (hl : l.Perm t.values) {f : κ → κ'}
    (hf : Function.Injective f) (k : κ) : (JsMap.ofEntries (l.map fun row => (f (key row), row))).get? (f k) = t.get? k := by
  have hnodup : (l.map key).Nodup := (hl.map key).nodup_iff.mpr t.nodup_values
  have hkeys : ((l.map fun row => (f (key row), row)).map Prod.fst).Nodup := by
    have hmap : (l.map fun row => (f (key row), row)).map Prod.fst = (l.map key).map f := by
      rw [List.map_map, List.map_map]
      rfl
    rw [hmap]
    exact hnodup.map hf
  ext row
  rw [JsMap.get?_eq_some_iff, JsMap.entries_ofEntries hkeys]
  constructor
  · intro h
    obtain ⟨row', hmem, heq⟩ := List.mem_map.mp h
    obtain ⟨hkey, rfl⟩ := Prod.mk.inj heq
    rw [← hf hkey]
    exact mem_values_iff.mp (hl.mem_iff.mp hmem)
  · intro h
    refine List.mem_map.mpr ⟨row, hl.mem_iff.mpr (mem_values_iff.mpr ?_), by rw [key_of_get? h]⟩
    rw [key_of_get? h]
    exact h

end Table
