/-
LiveProbe/Schema.lean

Validators in the manner of zod.  A schema reads a value and either rejects it
or puts out the value it stands for, which need not be the same one: strings
are trimmed, hexadecimal identifiers are lower-cased.

What an encoder needs from a schema is that its own output passes unchanged
(`Stable`): a value that was read once can be written out and read again.
Every combinator here keeps that property, so a record's schema has it when
its fields' schemas do.
-/
import LiveProbe.JsString
import Mathlib.Data.List.Forall2

/-- A validator: `none` is a rejection, `some` carries the value put out. -/
abbrev Schema (α : Type*) := α → Option α

namespace Schema

open JsString

variable {α β : Type*}

/-- What the schema puts out it accepts unchanged. -/
def Stable (s : Schema α) : Prop := ∀ ⦃a b⦄, s a = some b → s b = some b

/-! ### Combinators -/

/-- Accept what satisfies `p`, as it is. -/
def refine (p : α → Bool) : Schema α := fun a => if p a then some a else none

/-- Rewrite, then accept what satisfies `p`. -/
def preprocess (f : α → α) (p : α → Bool) : Schema α := fun a => refine p (f a)

/-- `.optional()` -/
def optional (s : Schema α) : Schema (Option α)
  | none => some none
  | some a => (s a).map some

/-- `z.array(s)` -/
def array (s : Schema α) : Schema (List α)
  | [] => some []
  | a :: l => do
    let b ← s a
    let t ← array s l
    return b :: t

/-- `z.array(s).min(lo).max(hi)` -/
def boundedArray (s : Schema α) (lo hi : ℕ) : Schema (List α) := fun l => do
  let t ← array s l
  refine (fun t => decide (lo ≤ t.length ∧ t.length ≤ hi)) t

/-- `z.string().min(lo).max(hi)` -/
def text (lo hi : ℕ) : Schema JsString :=
  refine fun s => decide (lo ≤ s.length ∧ s.length ≤ hi)

/-- `z.string().trim().min(lo).max(hi)` -/
def trimmed (lo hi : ℕ) : Schema JsString :=
  preprocess trim fun s => decide (lo ≤ s.length ∧ s.length ≤ hi)

/-- `z.string().trim().min(lo).max(hi)` with a further check. -/
def trimmedWith (lo hi : ℕ) (p : JsString → Bool) : Schema JsString :=
  preprocess trim fun s => decide (lo ≤ s.length ∧ s.length ≤ hi) && p s

/-- `Number.MAX_SAFE_INTEGER` -/
def maxSafeInteger : ℕ := 9007199254740991

/-- `z.number().int().min(lo).max(hi)`; `.int()` admits safe integers only. -/
def intBetween (lo hi : ℕ) : Schema ℕ :=
  refine fun n => decide (lo ≤ n ∧ n ≤ hi ∧ n ≤ maxSafeInteger)

/-- `z.number().int().positive()` -/
def positiveInt : Schema ℕ := intBetween 1 maxSafeInteger

/-- `z.number().int().nonnegative()` -/
def nonnegativeInt : Schema ℕ := intBetween 0 maxSafeInteger

/-! ### Stability -/

theorem refine_eq_some {p : α → Bool} {a b : α} : refine p a = some b ↔ p a = true ∧ a = b := by
  unfold refine
  split <;> simp_all

@[simp] theorem refine_self {p : α → Bool} {a : α} : refine p a = some a ↔ p a = true := by
  simp [refine_eq_some]

theorem stable_refine (p : α → Bool) : Stable (refine p) := fun a b h => by
  obtain ⟨hp, rfl⟩ := refine_eq_some.mp h
  exact h

theorem preprocess_eq_some {f : α → α} {p : α → Bool} {a b : α} :
    preprocess f p a = some b ↔ p b = true ∧ f a = b := by
  rw [preprocess, refine_eq_some]
  constructor
  · rintro ⟨h, rfl⟩; exact ⟨h, rfl⟩
  · rintro ⟨h, rfl⟩; exact ⟨h, rfl⟩

theorem stable_preprocess {f : α → α} {p : α → Bool} (hf : ∀ a, f (f a) = f a) :
    Stable (preprocess f p) := fun a b h => by
  obtain ⟨hp, rfl⟩ := preprocess_eq_some.mp h
  exact preprocess_eq_some.mpr ⟨hp, hf a⟩

theorem optional_eq_some {s : Schema α} {a b : Option α} :
    optional s a = some b ↔
      (a = none ∧ b = none) ∨ ∃ x y, a = some x ∧ s x = some y ∧ b = some y := by
  cases a <;> simp [optional, eq_comm]

theorem Stable.optional {s : Schema α} (hs : Stable s) : Stable (optional s) := fun a b h => by
  rcases optional_eq_some.mp h with ⟨-, rfl⟩ | ⟨x, y, -, hy, rfl⟩
  · rfl
  · simp [Schema.optional, hs hy]

/-- An optional field passes unchanged when the value in it does. -/
theorem optional_self {s : Schema α} {a : Option α} :
    optional s a = some a ↔ ∀ x ∈ a, s x = some x := by
  cases a <;> simp [optional]

theorem array_eq_some {s : Schema α} {l t : List α} :
    array s l = some t ↔ List.Forall₂ (fun a b => s a = some b) l t := by
  induction l generalizing t with
  | nil => simp [array, eq_comm]
  | cons a l ih =>
    simp only [array, Option.bind_eq_bind, Option.bind_eq_some_iff, Option.pure_def,
      Option.some.injEq, List.forall₂_cons_left_iff, ih]
    constructor
    · rintro ⟨b, hb, t', ht, rfl⟩; exact ⟨b, t', hb, ht, rfl⟩
    · rintro ⟨b, t', hb, ht, rfl⟩; exact ⟨b, hb, t', ht, rfl⟩

/-- What a list's schema puts out comes from the list. -/
theorem exists_of_mem_array {s : Schema α} {l t : List α} (h : array s l = some t) {b : α}
    (hb : b ∈ t) : ∃ a ∈ l, s a = some b := by
  rw [array_eq_some] at h
  induction h with
  | nil => simp at hb
  | @cons a c l t hac _ ih =>
    rcases List.mem_cons.mp hb with rfl | hb
    · exact ⟨a, List.mem_cons_self, hac⟩
    · obtain ⟨a', ha', hab⟩ := ih hb
      exact ⟨a', List.mem_cons_of_mem _ ha', hab⟩

/-- A list passes unchanged when every element does. -/
theorem array_self {s : Schema α} {l : List α} :
    array s l = some l ↔ ∀ a ∈ l, s a = some a := by
  rw [array_eq_some, List.forall₂_same]

/-- What a list's schema puts out when it is known for each element. -/
theorem eq_map_of_array {s : Schema α} {f : α → α} {l t : List α} (h : array s l = some t)
    (hf : ∀ a ∈ l, ∀ b, s a = some b → b = f a) : t = l.map f := by
  rw [array_eq_some] at h
  induction h with
  | nil => rfl
  | cons hab _ ih =>
    rw [List.map_cons, hf _ List.mem_cons_self _ hab, ih fun a ha => hf a (List.mem_cons_of_mem _ ha)]

/-- A list whose elements are accepted is accepted. -/
theorem array_of_map {s : Schema α} {f : α → α} {l : List α} (h : ∀ a ∈ l, s a = some (f a)) :
    array s l = some (l.map f) := by
  rw [array_eq_some, List.forall₂_map_right_iff, List.forall₂_same]
  exact h

/-- Every element of an accepted list is accepted. -/
theorem exists_of_array {s : Schema α} {l t : List α} (h : array s l = some t) {a : α}
    (ha : a ∈ l) : ∃ b ∈ t, s a = some b := by
  rw [array_eq_some] at h
  induction h with
  | nil => simp at ha
  | @cons a' b l t hab _ ih =>
    rcases List.mem_cons.mp ha with rfl | ha
    · exact ⟨b, List.mem_cons_self, hab⟩
    · obtain ⟨b', hb', h⟩ := ih ha
      exact ⟨b', List.mem_cons_of_mem _ hb', h⟩

/-- A list of a bounded length passes unchanged when every element does. -/
theorem boundedArray_self {s : Schema α} {lo hi : ℕ} {l : List α} :
    boundedArray s lo hi l = some l ↔ (∀ a ∈ l, s a = some a) ∧ lo ≤ l.length ∧ l.length ≤ hi := by
  simp only [boundedArray, Option.bind_eq_bind, Option.bind_eq_some_iff, refine_eq_some,
    decide_eq_true_eq]
  constructor
  · rintro ⟨t, ht, hl, rfl⟩
    exact ⟨array_self.mp ht, hl⟩
  · rintro ⟨h, hl⟩
    exact ⟨l, array_self.mpr h, hl, rfl⟩

theorem Stable.array {s : Schema α} (hs : Stable s) : Stable (array s) := fun l t h => by
  rw [array_eq_some] at h
  rw [array_self]
  induction h with
  | nil => simp
  | cons hab _ ih =>
    rintro a (- | ⟨_, ha⟩)
    · exact hs hab
    · exact ih a ha

theorem Stable.boundedArray {s : Schema α} (hs : Stable s) (lo hi : ℕ) :
    Stable (boundedArray s lo hi) := fun l t h => by
  obtain ⟨t', ht, hr⟩ := Option.bind_eq_some_iff.mp h
  obtain ⟨hp, rfl⟩ := refine_eq_some.mp hr
  simp only [Schema.boundedArray, hs.array ht, Option.bind_eq_bind, Option.bind_some, refine_self]
  exact hp

theorem stable_text (lo hi : ℕ) : Stable (text lo hi) := stable_refine _

theorem stable_trimmed (lo hi : ℕ) : Stable (trimmed lo hi) := stable_preprocess trim_trim

theorem trim_eq_of_trimmed {lo hi : ℕ} {s t : JsString} (h : trimmed lo hi s = some t) :
    trim s = t := (preprocess_eq_some.mp h).2

theorem stable_trimmedWith (lo hi : ℕ) (p : JsString → Bool) : Stable (trimmedWith lo hi p) :=
  stable_preprocess trim_trim

theorem intBetween_eq_some {lo hi a b : ℕ} :
    intBetween lo hi a = some b ↔ (lo ≤ a ∧ a ≤ hi ∧ a ≤ maxSafeInteger) ∧ a = b := by
  rw [intBetween, refine_eq_some, decide_eq_true_eq]

theorem positiveInt_eq_some {a b : ℕ} :
    positiveInt a = some b ↔ (1 ≤ a ∧ a ≤ maxSafeInteger) ∧ a = b := by
  rw [positiveInt, intBetween_eq_some]
  simp

theorem nonnegativeInt_eq_some {a b : ℕ} :
    nonnegativeInt a = some b ↔ a ≤ maxSafeInteger ∧ a = b := by
  rw [nonnegativeInt, intBetween_eq_some]
  simp

theorem stable_intBetween (lo hi : ℕ) : Stable (intBetween lo hi) := stable_refine _
theorem stable_positiveInt : Stable positiveInt := stable_refine _
theorem stable_nonnegativeInt : Stable nonnegativeInt := stable_refine _

/-! ### Acceptance -/

theorem isSome_refine {p : α → Bool} {a : α} : (refine p a).isSome = true ↔ p a = true := by
  unfold refine
  split
  · next h => exact iff_of_true rfl h
  · next h => exact iff_of_false nofun h

theorem isSome_optional {s : Schema α} {a : Option α} :
    (optional s a).isSome = true ↔ ∀ x ∈ a, (s x).isSome = true := by
  cases a with
  | none => exact ⟨fun _ _ h => absurd h (Option.not_mem_none _), fun _ => rfl⟩
  | some x =>
    show ((s x).map some).isSome = true ↔ _
    rw [Option.isSome_map]
    exact ⟨fun h _ hx => Option.mem_some.mp hx ▸ h, fun h => h x rfl⟩

theorem isSome_array {s : Schema α} {l : List α} :
    (array s l).isSome = true ↔ ∀ a ∈ l, (s a).isSome = true := by
  constructor
  · intro h a ha
    obtain ⟨t, ht⟩ := Option.isSome_iff_exists.mp h
    obtain ⟨b, -, hb⟩ := exists_of_array ht ha
    exact Option.isSome_iff_exists.mpr ⟨b, hb⟩
  · intro h
    induction l with
    | nil => rfl
    | cons a l ih =>
      obtain ⟨b, hb⟩ := Option.isSome_iff_exists.mp (h a List.mem_cons_self)
      obtain ⟨t, ht⟩ := Option.isSome_iff_exists.mp (ih fun c hc => h c (List.mem_cons_of_mem _ hc))
      rw [array, hb, ht]
      rfl

theorem isSome_boundedArray {s : Schema α} {lo hi : ℕ} {l : List α} :
    (boundedArray s lo hi l).isSome = true ↔
      (∀ a ∈ l, (s a).isSome = true) ∧ lo ≤ l.length ∧ l.length ≤ hi := by
  rw [← isSome_array, boundedArray]
  rcases h : array s l with - | t
  · exact iff_of_false nofun fun h => nomatch h.1
  · rw [Option.bind_eq_bind, Option.bind_some, isSome_refine, decide_eq_true_eq, (array_eq_some.mp h).length_eq]
    exact (and_iff_right rfl).symm

theorem isSome_trimmed {lo hi : ℕ} {s : JsString} :
    (trimmed lo hi s).isSome = true ↔ lo ≤ (trim s).length ∧ (trim s).length ≤ hi := by
  rw [trimmed, preprocess, isSome_refine, decide_eq_true_eq]

/-! ### Values a schema does not rewrite -/

/-- If the schema accepts the value at all, it puts out that value. -/
def Kept (s : Schema α) (a : α) : Prop := ∀ ⦃b⦄, s a = some b → b = a

theorem kept_refine (p : α → Bool) (a : α) : Kept (refine p) a := fun _ h =>
  (refine_eq_some.mp h).2.symm

theorem kept_positiveInt (n : ℕ) : Kept positiveInt n := kept_refine _ _
theorem kept_nonnegativeInt (n : ℕ) : Kept nonnegativeInt n := kept_refine _ _

/-- What passes unchanged is kept. -/
theorem Kept.of_self {s : Schema α} {a : α} (h : s a = some a) : Kept s a := fun _ hb =>
  Option.some.inj (hb.symm.trans h)

theorem Kept.optional {s : Schema α} {a : Option α} (h : ∀ x ∈ a, Kept s x) :
    Kept (optional s) a := fun b hb => by
  rcases optional_eq_some.mp hb with ⟨rfl, rfl⟩ | ⟨x, y, rfl, hy, rfl⟩
  · rfl
  · rw [h x rfl hy]

/-- A list is kept when every element is. -/
theorem Kept.array {s : Schema α} {l : List α} (h : ∀ a ∈ l, Kept s a) : Kept (array s) l :=
  fun t ht => by
  rw [array_eq_some] at ht
  induction ht with
  | nil => rfl
  | cons hab _ ih =>
    rw [h _ List.mem_cons_self hab, ih fun a ha => h a (List.mem_cons_of_mem _ ha)]

end Schema
