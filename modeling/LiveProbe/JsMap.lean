/-
LiveProbe/JsMap.lean

The `Map` of ECMAScript: a finite map that remembers the order in which its
keys were first set.  `set` on a present key replaces the value in place, a
new key goes to the end, and iteration follows that order.

A map is its list of entries together with the proof that no key occurs
twice, so a lookup is membership (`get?_eq_some_iff`) and two maps are equal
when their entries are (`ext`).  The lemmas come in two groups: what a lookup
sees after each operation, and how the operations commute with `filter`,
which is what a projection of a map onto some of its keys needs.
-/
import Mathlib.Data.List.Nodup
import Mathlib.Data.List.Lookmap
import Mathlib.Data.List.Perm.Basic
import Mathlib.Data.List.TakeWhile

/-- A finite map with insertion order. -/
structure JsMap (κ α : Type*) where
  entries : List (κ × α)
  nodup : (entries.map Prod.fst).Nodup

namespace JsMap

variable {κ α β γ : Type*}

@[ext] theorem ext {m m' : JsMap κ α} (h : m.entries = m'.entries) : m = m' := by
  cases m; cases m'; cases h; rfl

/-! ### Construction and iteration -/

/-- The map without entries. -/
def empty : JsMap κ α := ⟨[], List.nodup_nil⟩

instance : EmptyCollection (JsMap κ α) := ⟨empty⟩
instance : Inhabited (JsMap κ α) := ⟨empty⟩

/-- The keys, in iteration order. -/
def keys (m : JsMap κ α) : List κ := m.entries.map Prod.fst

/-- The values, in iteration order. -/
def values (m : JsMap κ α) : List α := m.entries.map Prod.snd

/-- The number of entries. -/
def size (m : JsMap κ α) : ℕ := m.entries.length

/-- The entries that satisfy `p`, in the same order. -/
def filter (p : κ → α → Bool) (m : JsMap κ α) : JsMap κ α where
  entries := m.entries.filter fun e => p e.1 e.2
  nodup := m.nodup.sublist (List.filter_sublist.map Prod.fst)

/-- Replace every value, keys and order unchanged. -/
def mapVals (f : κ → α → β) (m : JsMap κ α) : JsMap κ β where
  entries := m.entries.map fun e => (e.1, f e.1 e.2)
  nodup := by
    rw [List.map_map]
    exact m.nodup

@[simp] theorem entries_empty : (∅ : JsMap κ α).entries = [] := rfl
@[simp] theorem keys_empty : (∅ : JsMap κ α).keys = [] := rfl
@[simp] theorem values_empty : (∅ : JsMap κ α).values = [] := rfl

@[simp] theorem entries_filter (p : κ → α → Bool) (m : JsMap κ α) :
    (m.filter p).entries = m.entries.filter fun e => p e.1 e.2 := rfl

@[simp] theorem entries_mapVals (f : κ → α → β) (m : JsMap κ α) :
    (m.mapVals f).entries = m.entries.map fun e => (e.1, f e.1 e.2) := rfl

@[simp] theorem keys_mapVals (f : κ → α → β) (m : JsMap κ α) :
    (m.mapVals f).keys = m.keys := by
  simp [keys]

theorem mem_keys_of_mem {m : JsMap κ α} {k : κ} {v : α} (h : (k, v) ∈ m.entries) :
    k ∈ m.keys :=
  List.mem_map_of_mem h

theorem mem_keys_iff {m : JsMap κ α} {k : κ} :
    k ∈ m.keys ↔ ∃ v, (k, v) ∈ m.entries := by
  simp [keys]

theorem mem_values_iff {m : JsMap κ α} {v : α} :
    v ∈ m.values ↔ ∃ k, (k, v) ∈ m.entries := by
  simp [values]

/-- A key carries one value. -/
theorem value_unique {m : JsMap κ α} {k : κ} {v v' : α}
    (h : (k, v) ∈ m.entries) (h' : (k, v') ∈ m.entries) : v = v' := by
  have := List.inj_on_of_nodup_map m.nodup h h' rfl
  exact (Prod.mk.inj this).2

section Keyed

variable [DecidableEq κ]

/-- The value of a key. -/
def get? (m : JsMap κ α) (k : κ) : Option α :=
  (m.entries.find? fun e => e.1 = k).map Prod.snd

/-- Whether a key is present. -/
def has (m : JsMap κ α) (k : κ) : Bool := (m.get? k).isSome

/-- Set a key: in place when it is present, else at the end. -/
def set (m : JsMap κ α) (k : κ) (v : α) : JsMap κ α where
  entries :=
    if k ∈ m.keys then m.entries.map fun e => if e.1 = k then (k, v) else e
    else m.entries ++ [(k, v)]
  nodup := by
    split
    · have : (m.entries.map fun e => if e.1 = k then (k, v) else e).map Prod.fst
          = m.entries.map Prod.fst := by
        rw [List.map_map]
        refine List.map_congr_left fun e _ => ?_
        by_cases he : e.1 = k <;> simp [he]
      rw [this]
      exact m.nodup
    · next hk =>
      rw [List.map_append, List.nodup_append]
      refine ⟨m.nodup, by simp, ?_⟩
      rintro a ha b hb rfl
      obtain rfl : a = k := by simpa using hb
      exact hk ha

/-- Remove a key. -/
def delete (m : JsMap κ α) (k : κ) : JsMap κ α := m.filter fun k' _ => k' ≠ k

/-- `new Map(entries)`: later entries overwrite earlier ones in place. -/
def ofEntries (l : List (κ × α)) : JsMap κ α := l.foldl (fun m e => m.set e.1 e.2) ∅

/-! ### Lookups -/

theorem get?_eq_some_iff {m : JsMap κ α} {k : κ} {v : α} :
    m.get? k = some v ↔ (k, v) ∈ m.entries := by
  constructor
  · intro h
    obtain ⟨⟨k', v'⟩, hf, rfl⟩ := Option.map_eq_some_iff.mp h
    have hk : k' = k := by simpa using List.find?_some hf
    exact hk ▸ List.mem_of_find?_eq_some hf
  · intro h
    rcases hf : m.entries.find? (fun e => e.1 = k) with - | ⟨k', v'⟩
    · have := List.find?_eq_none.mp hf _ h
      simp at this
    · have hk : k' = k := by simpa using List.find?_some hf
      subst hk
      have hv := value_unique (List.mem_of_find?_eq_some hf) h
      simp [get?, hf, hv]

theorem get?_eq_none_iff {m : JsMap κ α} {k : κ} : m.get? k = none ↔ k ∉ m.keys := by
  rw [Option.eq_none_iff_forall_ne_some, mem_keys_iff]
  simp [get?_eq_some_iff]

theorem has_eq_true_iff {m : JsMap κ α} {k : κ} : m.has k = true ↔ k ∈ m.keys := by
  rw [has, ← not_iff_not, Bool.not_eq_true, Option.isSome_eq_false_iff,
    Option.isNone_iff_eq_none, get?_eq_none_iff]

theorem has_eq_false_iff {m : JsMap κ α} {k : κ} : m.has k = false ↔ m.get? k = none := by
  rw [has, Option.isSome_eq_false_iff, Option.isNone_iff_eq_none]

@[simp] theorem get?_empty (k : κ) : (∅ : JsMap κ α).get? k = none := rfl

theorem mem_entries_set {m : JsMap κ α} {k k' : κ} {v v' : α} :
    (k', v') ∈ (m.set k v).entries ↔
      (k' = k ∧ v' = v) ∨ (k' ≠ k ∧ (k', v') ∈ m.entries) := by
  by_cases hk : k ∈ m.keys
  · simp only [set, if_pos hk, List.mem_map]
    constructor
    · rintro ⟨⟨k₁, v₁⟩, hm, he⟩
      by_cases h : k₁ = k
      · rw [if_pos h] at he
        obtain ⟨rfl, rfl⟩ := Prod.mk.inj he
        exact Or.inl ⟨rfl, rfl⟩
      · rw [if_neg h] at he
        obtain ⟨rfl, rfl⟩ := Prod.mk.inj he
        exact Or.inr ⟨h, hm⟩
    · rintro (⟨rfl, rfl⟩ | ⟨h, hm⟩)
      · obtain ⟨v₀, hv₀⟩ := mem_keys_iff.mp hk
        exact ⟨_, hv₀, by simp⟩
      · exact ⟨_, hm, by simp [h]⟩
  · simp only [set, if_neg hk, List.mem_append, List.mem_singleton, Prod.mk.injEq]
    constructor
    · rintro (hm | h)
      · exact Or.inr ⟨fun h => hk (h ▸ mem_keys_of_mem hm), hm⟩
      · exact Or.inl h
    · rintro (h | ⟨-, hm⟩)
      · exact Or.inr h
      · exact Or.inl hm

@[simp] theorem get?_set_self (m : JsMap κ α) (k : κ) (v : α) :
    (m.set k v).get? k = some v := by
  rw [get?_eq_some_iff, mem_entries_set]
  exact Or.inl ⟨rfl, rfl⟩

theorem get?_set_of_ne {m : JsMap κ α} {k k' : κ} (h : k' ≠ k) (v : α) :
    (m.set k v).get? k' = m.get? k' := by
  ext v'
  rw [get?_eq_some_iff, get?_eq_some_iff, mem_entries_set]
  simp [h]

theorem get?_set (m : JsMap κ α) (k k' : κ) (v : α) :
    (m.set k v).get? k' = if k' = k then some v else m.get? k' := by
  by_cases h : k' = k
  · subst h; simp
  · rw [if_neg h, get?_set_of_ne h]

theorem get?_filter (p : κ → α → Bool) (m : JsMap κ α) (k : κ) :
    (m.filter p).get? k = (m.get? k).filter (p k) := by
  ext v
  rw [get?_eq_some_iff, entries_filter, List.mem_filter, Option.filter_eq_some_iff,
    get?_eq_some_iff]

theorem get?_mapVals (f : κ → α → β) (m : JsMap κ α) (k : κ) :
    (m.mapVals f).get? k = (m.get? k).map (f k) := by
  ext v
  simp only [get?_eq_some_iff, entries_mapVals, List.mem_map, Option.map_eq_some_iff,
    Prod.mk.injEq]
  constructor
  · rintro ⟨⟨k', v'⟩, hm, rfl, rfl⟩
    exact ⟨v', hm, rfl⟩
  · rintro ⟨v', hm, rfl⟩
    exact ⟨_, hm, rfl, rfl⟩

@[simp] theorem get?_delete_self (m : JsMap κ α) (k : κ) : (m.delete k).get? k = none := by
  rw [delete, get?_filter]
  cases m.get? k <;> simp

theorem get?_delete_of_ne {m : JsMap κ α} {k k' : κ} (h : k' ≠ k) :
    (m.delete k).get? k' = m.get? k' := by
  rw [delete, get?_filter]
  cases m.get? k' <;> simp [h]

theorem get?_delete (m : JsMap κ α) (k k' : κ) :
    (m.delete k).get? k' = if k' = k then none else m.get? k' := by
  by_cases h : k' = k
  · subst h; simp
  · rw [if_neg h, get?_delete_of_ne h]

/-- Deleting the keys of a list one by one. -/
theorem get?_foldl_delete (l : List κ) (m : JsMap κ α) (k : κ) :
    (l.foldl delete m).get? k = if k ∈ l then none else m.get? k := by
  induction l generalizing m with
  | nil => rw [List.foldl_nil, if_neg List.not_mem_nil]
  | cons a l ih =>
    rw [List.foldl_cons, ih, get?_delete]
    by_cases hk : k = a
    · simp [hk]
    · simp [hk]

theorem mem_keys_set {m : JsMap κ α} {k k' : κ} {v : α} :
    k' ∈ (m.set k v).keys ↔ k' = k ∨ k' ∈ m.keys := by
  rw [mem_keys_iff, mem_keys_iff]
  constructor
  · rintro ⟨v', hm⟩
    rcases mem_entries_set.mp hm with ⟨h, -⟩ | ⟨-, hm⟩
    · exact Or.inl h
    · exact Or.inr ⟨v', hm⟩
  · intro h
    by_cases hk : k' = k
    · exact ⟨v, mem_entries_set.mpr (Or.inl ⟨hk, rfl⟩)⟩
    · obtain ⟨v', hm⟩ := h.resolve_left hk
      exact ⟨v', mem_entries_set.mpr (Or.inr ⟨hk, hm⟩)⟩

theorem mem_keys_delete {m : JsMap κ α} {k k' : κ} :
    k' ∈ (m.delete k).keys ↔ k' ≠ k ∧ k' ∈ m.keys := by
  rw [← not_iff_not, ← get?_eq_none_iff, get?_delete, not_and, ← get?_eq_none_iff]
  by_cases h : k' = k <;> simp [h]

/-! ### Entries after an operation -/

theorem entries_set_of_notMem {m : JsMap κ α} {k : κ} (h : k ∉ m.keys) (v : α) :
    (m.set k v).entries = m.entries ++ [(k, v)] := by
  simp [set, h]

theorem entries_set_of_mem {m : JsMap κ α} {k : κ} (h : k ∈ m.keys) (v : α) :
    (m.set k v).entries = m.entries.map fun e => if e.1 = k then (k, v) else e := by
  simp [set, h]

theorem values_set_of_notMem {m : JsMap κ α} {k : κ} (h : k ∉ m.keys) (v : α) :
    (m.set k v).values = m.values ++ [v] := by
  simp [values, entries_set_of_notMem h]

/-- Values that are left out may come and go. -/
theorem filter_values_set {q : α → Bool} {m : JsMap κ α} {k : κ} {v : α} (hv : q v = false)
    (hold : ∀ w, m.get? k = some w → q w = false) :
    (m.set k v).values.filter q = m.values.filter q := by
  by_cases h : k ∈ m.keys
  · simp only [values, entries_set_of_mem h, List.map_map, List.filter_map]
    have hsame : m.entries.filter (q ∘ Prod.snd ∘ fun e => if e.1 = k then (k, v) else e) =
        m.entries.filter (q ∘ Prod.snd) := by
      refine List.filter_congr fun e he => ?_
      simp only [Function.comp_apply]
      split
      · next hk => rw [hv, hold e.2 (get?_eq_some_iff.mpr (hk ▸ he))]
      · rfl
    rw [hsame]
    refine List.map_congr_left fun e he => ?_
    obtain ⟨he, hq⟩ := List.mem_filter.mp he
    have hk : e.1 ≠ k := by
      intro hk
      rw [Function.comp_apply, hold e.2 (get?_eq_some_iff.mpr (hk ▸ he))] at hq
      cases hq
    rw [Function.comp_apply, if_neg hk]
  · rw [values_set_of_notMem h, List.filter_append, List.filter_cons_of_neg (by simp [hv]),
      List.filter_nil, List.append_nil]

/-! ### Projections -/

/-- A projection that keeps the key sees the update. -/
theorem filter_set_of_pos {p : κ → Bool} {m : JsMap κ α} {k : κ} (h : p k = true) (v : α) :
    (m.set k v).filter (fun k _ => p k) = (m.filter fun k _ => p k).set k v := by
  apply ext
  by_cases hk : k ∈ m.keys
  · have hk' : k ∈ (m.filter fun k _ => p k).keys := by
      obtain ⟨v₀, hv₀⟩ := mem_keys_iff.mp hk
      exact mem_keys_of_mem (List.mem_filter.mpr ⟨hv₀, h⟩)
    rw [entries_filter, entries_set_of_mem hk, entries_set_of_mem hk', entries_filter,
      List.filter_map]
    congr 1
    refine List.filter_congr fun e _ => ?_
    by_cases he : e.1 = k <;> simp [he]
  · have hk' : k ∉ (m.filter fun k _ => p k).keys := by
      intro hm
      obtain ⟨v₀, hv₀⟩ := mem_keys_iff.mp hm
      exact hk (mem_keys_of_mem (List.mem_filter.mp hv₀).1)
    rw [entries_filter, entries_set_of_notMem hk, entries_set_of_notMem hk', entries_filter,
      List.filter_append]
    simp [h]

/-- A projection that drops the key does not see the update. -/
theorem filter_set_of_neg {p : κ → Bool} {m : JsMap κ α} {k : κ} (h : p k = false) (v : α) :
    (m.set k v).filter (fun k _ => p k) = m.filter fun k _ => p k := by
  apply ext
  by_cases hk : k ∈ m.keys
  · rw [entries_filter, entries_set_of_mem hk, entries_filter, List.filter_map]
    have : ∀ e ∈ m.entries.filter fun e => p e.1, (if e.1 = k then (k, v) else e) = e := by
      intro e he
      have hp : p e.1 = true := (List.mem_filter.mp he).2
      rw [if_neg]
      rintro rfl
      rw [h] at hp
      cases hp
    calc
      _ = (m.entries.filter fun e => p e.1).map fun e => if e.1 = k then (k, v) else e := by
        congr 1
        refine List.filter_congr fun e _ => ?_
        by_cases he : e.1 = k <;> simp [he]
      _ = (m.entries.filter fun e => p e.1).map id := List.map_congr_left this
      _ = _ := List.map_id _
  · rw [entries_filter, entries_set_of_notMem hk, entries_filter, List.filter_append]
    simp [h]

omit [DecidableEq κ] in
theorem filter_filter (p q : κ → α → Bool) (m : JsMap κ α) :
    (m.filter q).filter p = m.filter fun k v => p k v && q k v := by
  apply ext
  simp [List.filter_filter]

/-- Deleting the keys of a list leaves what is not in it. -/
theorem foldl_delete (l : List κ) (m : JsMap κ α) : l.foldl delete m = m.filter fun k _ => k ∉ l := by
  induction l generalizing m with
  | nil =>
    apply ext
    rw [List.foldl_nil, entries_filter]
    exact (List.filter_eq_self.mpr fun e _ => decide_eq_true List.not_mem_nil).symm
  | cons k l ih =>
    rw [List.foldl_cons, ih, delete, filter_filter]
    congr 1
    funext k' v
    rw [← Bool.decide_and]
    apply decide_eq_decide.mpr
    rw [List.mem_cons, not_or, and_comm]

/-- The entries before the one of a key. -/
def before (m : JsMap κ α) (k : κ) : List (κ × α) := m.entries.takeWhile fun e => e.1 ≠ k

/-- The entries after the one of a key. -/
def after (m : JsMap κ α) (k : κ) : List (κ × α) := (m.entries.dropWhile fun e => e.1 ≠ k).tail

/-- An entry is set where its key stands, or at the end. -/
theorem entries_set_split (m : JsMap κ α) (k : κ) (v : α) :
    (m.set k v).entries = m.before k ++ (k, v) :: m.after k := by
  by_cases hk : k ∈ m.keys
  · rw [entries_set_of_mem hk]
    have hsplit := List.takeWhile_append_dropWhile (p := fun e : κ × α => e.1 ≠ k) (l := m.entries)
    have hbefore : ∀ e ∈ m.before k, e.1 ≠ k := by
      intro e he
      have hkept := List.mem_takeWhile_imp (p := fun e : κ × α => decide (e.1 ≠ k)) he
      exact of_decide_eq_true hkept
    rcases hdrop : m.entries.dropWhile (fun e => e.1 ≠ k) with - | ⟨e, rest⟩
    · rw [hdrop, List.append_nil] at hsplit
      obtain ⟨w, hw⟩ := mem_keys_iff.mp hk
      rw [← hsplit] at hw
      exact absurd rfl (hbefore _ hw)
    · have hkey : e.1 = k := by
        have hhead := List.head_dropWhile_not (fun e : κ × α => decide (e.1 ≠ k))
          (hdrop ▸ List.cons_ne_nil e rest)
        simp only [hdrop, List.head_cons, decide_eq_false_iff_not, not_not] at hhead
        exact hhead
      have hnodup := m.nodup
      rw [← hsplit, hdrop, List.map_append, List.nodup_append, List.map_cons, List.nodup_cons] at hnodup
      have hafter : ∀ e' ∈ rest, e'.1 ≠ k := by
        intro e' he' heq
        exact hnodup.2.1.1 (hkey ▸ heq ▸ List.mem_map_of_mem he')
      rw [after, hdrop, List.tail_cons]
      conv_lhs => rw [← hsplit, hdrop]
      rw [List.map_append, List.map_cons, if_pos hkey]
      have hsame : ∀ l : List (κ × α), (∀ e ∈ l, e.1 ≠ k) → (l.map fun e => if e.1 = k then (k, v) else e) = l :=
        fun l hl => (List.map_congr_left fun e he => if_neg (hl e he)).trans (List.map_id _)
      rw [hsame rest hafter]
      exact congrArg (· ++ (k, v) :: rest) (hsame _ hbefore)
  · rw [entries_set_of_notMem hk, before, after]
    have hall : ∀ e ∈ m.entries, (fun e : κ × α => decide (e.1 ≠ k)) e = true := by
      intro e he
      exact decide_eq_true fun heq => hk (heq ▸ List.mem_map_of_mem he)
    rw [List.takeWhile_eq_self_iff.mpr hall, List.dropWhile_eq_nil_iff.mpr hall]
    rfl

omit [DecidableEq κ] in
theorem filter_comm (p q : κ → α → Bool) (m : JsMap κ α) :
    (m.filter q).filter p = (m.filter p).filter q := by
  rw [filter_filter, filter_filter]
  congr 1
  funext k v
  exact Bool.and_comm _ _

theorem filter_delete {p : κ → α → Bool} {m : JsMap κ α} {k : κ} :
    (m.delete k).filter p = (m.filter p).delete k :=
  filter_comm _ _ m

/-- Deleting a key a projection drops changes nothing in it. -/
theorem filter_delete_of_neg {p : κ → Bool} {m : JsMap κ α} {k : κ} (h : p k = false) :
    (m.delete k).filter (fun k _ => p k) = m.filter fun k _ => p k := by
  apply ext
  simp only [delete, filter_filter, entries_filter]
  refine List.filter_congr fun e _ => ?_
  by_cases he : e.1 = k <;> simp [he, h]

omit [DecidableEq κ] in
theorem filter_eq_self {p : κ → α → Bool} {m : JsMap κ α}
    (h : ∀ k v, (k, v) ∈ m.entries → p k v = true) : m.filter p = m :=
  ext (List.filter_eq_self.mpr fun e he => h e.1 e.2 he)

theorem get?_filter_of_pos {p : κ → Bool} {m : JsMap κ α} {k : κ} (h : p k = true) :
    (m.filter fun k _ => p k).get? k = m.get? k := by
  rw [get?_filter]
  cases m.get? k <;> simp [h]

theorem has_filter_of_pos {p : κ → Bool} {m : JsMap κ α} {k : κ} (h : p k = true) :
    (m.filter fun k _ => p k).has k = m.has k := by
  rw [has, has, get?_filter_of_pos h]

theorem get?_filter_of_neg {p : κ → Bool} {m : JsMap κ α} {k : κ} (h : p k = false) :
    (m.filter fun k _ => p k).get? k = none := by
  rw [get?_filter]
  cases m.get? k <;> simp [h]

/-! ### Rewriting values -/

omit [DecidableEq κ] in
theorem mapVals_mapVals (f : κ → α → β) (g : κ → β → γ) (m : JsMap κ α) :
    (m.mapVals f).mapVals g = m.mapVals fun k v => g k (f k v) := by
  apply ext
  simp [Function.comp_def]

theorem mapVals_eq_self {f : κ → α → α} {m : JsMap κ α}
    (h : ∀ k v, m.get? k = some v → f k v = v) : m.mapVals f = m := by
  apply ext
  rw [entries_mapVals]
  conv_rhs => rw [← List.map_id m.entries]
  refine List.map_congr_left fun e he => ?_
  exact Prod.ext rfl (h e.1 e.2 (get?_eq_some_iff.mpr he))

/-- Setting a key commutes with rewriting values. -/
theorem mapVals_set (f : κ → α → β) (m : JsMap κ α) (k : κ) (v : α) :
    (m.set k v).mapVals f = (m.mapVals f).set k (f k v) := by
  apply ext
  by_cases hk : k ∈ m.keys
  · rw [entries_mapVals, entries_set_of_mem hk, entries_set_of_mem (by simpa using hk),
      entries_mapVals, List.map_map, List.map_map]
    refine List.map_congr_left fun e _ => ?_
    by_cases he : e.1 = k
    · simp [he]
    · simp [he]
  · rw [entries_mapVals, entries_set_of_notMem hk, entries_set_of_notMem (by simpa using hk)]
    simp

/-- Updating the entry of a key rewrites it in place. -/
theorem set_eq_mapVals {m : JsMap κ α} {k : κ} {v : α} (h : m.get? k = some v) (f : α → α) :
    m.set k (f v) = m.mapVals fun k' v' => if k' = k then f v' else v' := by
  have hk : k ∈ m.keys := mem_keys_of_mem (get?_eq_some_iff.mp h)
  apply ext
  rw [entries_set_of_mem hk, entries_mapVals]
  refine List.map_congr_left fun e he => ?_
  by_cases hek : e.1 = k
  · have hv : e.2 = v := value_unique (k := k) (hek ▸ he) (get?_eq_some_iff.mp h)
    simp [hek, hv]
  · simp [hek]

/-! ### Rebuilding a map from its entries -/

theorem foldl_set_entries (l : List (κ × α)) (m : JsMap κ α)
    (h : ((m.entries ++ l).map Prod.fst).Nodup) :
    (l.foldl (fun m e => m.set e.1 e.2) m).entries = m.entries ++ l := by
  induction l generalizing m with
  | nil => simp
  | cons e l ih =>
    have hk : e.1 ∉ m.keys := by
      intro hm
      rw [List.map_append, List.nodup_append] at h
      exact h.2.2 _ hm _ (by simp) rfl
    rw [List.foldl_cons, ih]
    · rw [entries_set_of_notMem hk, List.append_assoc]
      rfl
    · rwa [entries_set_of_notMem hk, List.append_assoc]

theorem entries_ofEntries {l : List (κ × α)} (h : (l.map Prod.fst).Nodup) :
    (ofEntries l).entries = l := by
  rw [ofEntries, foldl_set_entries l ∅ (by simpa using h)]
  rfl

/-- A map is rebuilt from its entries, values rewritten. -/
theorem ofEntries_entries_map (m : JsMap κ α) (f : κ → α → β) :
    ofEntries (m.entries.map fun e => (e.1, f e.1 e.2)) = m.mapVals f := by
  apply ext
  rw [entries_ofEntries]
  · rfl
  · simpa [List.map_map, Function.comp_def] using m.nodup

/-- A map whose keys are computed from the values is rebuilt from the values,
which may be rewritten. -/
theorem ofEntries_values_map {m : JsMap κ α} {key : α → κ} (f : α → β)
    (hk : ∀ k v, m.get? k = some v → k = key v) :
    ofEntries (m.values.map fun v => (key v, f v)) = m.mapVals fun _ v => f v := by
  rw [← ofEntries_entries_map, values, List.map_map]
  congr 1
  refine List.map_congr_left fun e he => ?_
  exact Prod.ext (hk _ _ (get?_eq_some_iff.mpr he)).symm rfl

/-- The entries that satisfy a test rebuild the filtered map. -/
theorem ofEntries_filter (m : JsMap κ α) (p : κ → α → Bool) :
    ofEntries (m.entries.filter fun e => p e.1 e.2) = m.filter p := by
  apply ext
  exact entries_ofEntries (m.filter p).nodup

/-- A map whose keys are computed from the values is rebuilt from the values. -/
theorem ofEntries_values {m : JsMap κ α} {key : α → κ} {f : α → α}
    (hk : ∀ k v, m.get? k = some v → k = key v) (hf : ∀ k v, m.get? k = some v → f v = v) :
    ofEntries (m.values.map fun v => (key v, f v)) = m := by
  have hl : m.values.map (fun v => (key v, f v)) = m.entries := by
    rw [values, List.map_map]
    conv_rhs => rw [← List.map_id m.entries]
    refine List.map_congr_left fun e he => ?_
    have hg : m.get? e.1 = some e.2 := get?_eq_some_iff.mpr he
    exact Prod.ext (hk _ _ hg).symm (hf _ _ hg)
  apply ext
  rw [hl, entries_ofEntries m.nodup]

theorem size_foldl_set_le (l : List (κ × α)) (m : JsMap κ α) :
    (l.foldl (fun m e => m.set e.1 e.2) m).size ≤ m.size + l.length := by
  induction l generalizing m with
  | nil => exact le_rfl
  | cons e l ih =>
    have hset : (m.set e.1 e.2).size ≤ m.size + 1 := by
      unfold size
      by_cases hk : e.1 ∈ m.keys
      · rw [entries_set_of_mem hk, List.length_map]
        exact Nat.le_succ _
      · rw [entries_set_of_notMem hk, List.length_append]
        exact le_rfl
    rw [List.foldl_cons, List.length_cons]
    have hle := ih (m.set e.1 e.2)
    omega

theorem get?_foldl_set (l : List (κ × α)) (m : JsMap κ α) (k : κ) :
    (l.foldl (fun m e => m.set e.1 e.2) m).get? k = ((l.reverse.find? fun e => e.1 = k).map Prod.snd).or (m.get? k) := by
  induction l generalizing m with
  | nil => rfl
  | cons e l ih =>
    rw [List.foldl_cons, ih, List.reverse_cons, List.find?_append, get?_set]
    generalize List.find? (fun e : κ × α => decide (e.1 = k)) l.reverse = found
    rcases found with - | e'
    · by_cases h : e.1 = k
      · rw [if_pos h.symm, List.find?_singleton, decide_eq_true h]
        rfl
      · rw [if_neg (Ne.symm h), List.find?_singleton, decide_eq_false h]
        rfl
    · rfl

/-- The last entry of a key is the one that stays. -/
theorem get?_ofEntries (l : List (κ × α)) (k : κ) :
    (ofEntries l).get? k = (l.reverse.find? fun e => e.1 = k).map Prod.snd := by
  rw [ofEntries, get?_foldl_set, get?_empty, Option.or_none]

theorem mem_entries_foldl_set {l : List (κ × α)} {m : JsMap κ α} {e : κ × α}
    (h : e ∈ (l.foldl (fun m e => m.set e.1 e.2) m).entries) : e ∈ m.entries ∨ e ∈ l := by
  induction l generalizing m with
  | nil => exact Or.inl h
  | cons a l ih =>
    rcases ih h with hm | hl
    · rcases mem_entries_set.mp hm with ⟨hk, hv⟩ | ⟨-, hm⟩
      · exact Or.inr (List.mem_cons.mpr (Or.inl (Prod.ext hk hv)))
      · exact Or.inl hm
    · exact Or.inr (List.mem_cons_of_mem _ hl)

/-- Every entry of a map built from a list is in the list. -/
theorem mem_of_mem_ofEntries {l : List (κ × α)} {e : κ × α} (h : e ∈ (ofEntries l).entries) :
    e ∈ l :=
  (mem_entries_foldl_set h).resolve_left (by simp)

/-- Updating the entries that satisfy `p`, one after the other, rewrites them
in place. -/
theorem foldl_update_entries (p : κ × α → Bool) (f : α → α) (m : JsMap κ α) :
    (m.entries.foldl (fun m e => if p e then m.set e.1 (f e.2) else m) m).entries =
      m.entries.map fun e => if p e then (e.1, f e.2) else e := by
  have key : ∀ (post pre : List (κ × α)) (m : JsMap κ α), m.entries = pre ++ post →
      (post.foldl (fun m e => if p e then m.set e.1 (f e.2) else m) m).entries =
        pre ++ post.map fun e => if p e then (e.1, f e.2) else e := by
    intro post
    induction post with
    | nil =>
      intro pre m h
      simpa using h
    | cons e post ih =>
      intro pre m h
      rw [List.foldl_cons, List.map_cons]
      by_cases hp : p e = true
      · rw [if_pos hp, if_pos hp, ih (pre ++ [(e.1, f e.2)]), List.append_assoc]
        · rfl
        · have hnd := m.nodup
          rw [h, List.map_append, List.map_cons, List.nodup_append, List.nodup_cons] at hnd
          have hmem : e.1 ∈ m.keys := mem_keys_of_mem (v := e.2) (by rw [h]; simp)
          have hpre : ∀ a ∈ pre, a.1 ≠ e.1 := fun a ha =>
            hnd.2.2 _ (List.mem_map_of_mem ha) _ List.mem_cons_self
          have hpost : ∀ a ∈ post, a.1 ≠ e.1 := fun a ha h =>
            hnd.2.1.1 (h ▸ List.mem_map_of_mem ha)
          rw [entries_set_of_mem hmem, h, List.map_append, List.map_cons, if_pos rfl,
            List.append_assoc, List.singleton_append,
            List.map_congr_left fun a ha => if_neg (hpre a ha),
            List.map_congr_left fun a ha => if_neg (hpost a ha), List.map_id'', List.map_id'']
          · exact fun _ => rfl
          · exact fun _ => rfl
      · rw [if_neg hp, if_neg hp, ih (pre ++ [e]) m (by rw [h]; simp), List.append_assoc]
        rfl
  simpa using key m.entries [] m rfl

/-! ### Properties of all entries -/

/-- Every entry satisfies `P`. -/
def All (P : κ → α → Prop) (m : JsMap κ α) : Prop := ∀ k v, m.get? k = some v → P k v

variable {P Q : κ → α → Prop} {m : JsMap κ α}

theorem All.empty : All P (∅ : JsMap κ α) := fun _ _ h => by simp at h

theorem All.of_size (h : m.size = 0) : All P m := by
  obtain rfl : m = ∅ := JsMap.ext (List.length_eq_zero_iff.mp h)
  exact .empty

theorem All.mono (h : All P m) (hPQ : ∀ k v, P k v → Q k v) : All Q m :=
  fun k v hv => hPQ k v (h k v hv)

theorem All.set (h : All P m) {k : κ} {v : α} (hv : P k v) : All P (m.set k v) := by
  intro k' v' hg
  rw [get?_set] at hg
  split at hg
  · next hk =>
    obtain rfl := Option.some.inj hg
    exact hk ▸ hv
  · exact h k' v' hg

theorem All.filter (h : All P m) (p : κ → α → Bool) : All P (m.filter p) := by
  intro k v hg
  rw [get?_filter] at hg
  exact h k v (Option.filter_eq_some_iff.mp hg).1

theorem All.delete (h : All P m) (k : κ) : All P (m.delete k) := h.filter _

theorem All.ofEntries {l : List (κ × α)} (h : ∀ e ∈ l, P e.1 e.2) : All P (ofEntries l) :=
  fun _ _ hg => h _ (mem_of_mem_ofEntries (get?_eq_some_iff.mp hg))

/-- A fold of updates that keep the property keeps it. -/
theorem All.foldl {β : Type*} {f : JsMap κ α → β → JsMap κ α} {l : List β}
    (hf : ∀ m b, b ∈ l → All P m → All P (f m b)) (h : All P m) : All P (l.foldl f m) := by
  induction l generalizing m with
  | nil => exact h
  | cons b l ih =>
    exact ih (fun m b' hb' => hf m b' (List.mem_cons_of_mem _ hb')) (hf m b List.mem_cons_self h)

end Keyed

end JsMap
