/-
LiveProbe/Positional.lean

Numbers written with a fixed number of digits, the first of which counts most.

`numeral symbol base n v` writes the last `n` digits of `v`, each by its symbol,
and `value` reads a numeral.  The numeral determines the digits
(`numeral_inj_iff`), and where the symbols ascend with the digits they stand for,
the lexicographic order of numerals is the order of the numbers
(`numeral_lex_iff`).

The order of the symbols is any relation, so that the same numerals can be
compared as texts and as sequences of digits.
-/
import Mathlib.Algebra.Group.Nat.Defs
import Mathlib.Data.List.Lex
import Mathlib.Data.Set.Function
import Mathlib.Order.Interval.Set.Defs

namespace Positional

variable {α : Type*} {r : α → α → Prop} {symbol : ℕ → α} {base : ℕ}

/-! ### Lists of one length -/

/-- Where the first parts are equally long, they are compared before the rest is. -/
theorem lex_append_iff {l l' m m' : List α} (h : l.length = l'.length) :
    List.Lex r (l ++ m) (l' ++ m') ↔ List.Lex r l l' ∨ l = l' ∧ List.Lex r m m' := by
  induction l generalizing l' with
  | nil =>
    obtain rfl := List.length_eq_zero_iff.mp h.symm
    simp
  | cons a l ih =>
    rcases l' with - | ⟨b, l'⟩
    · cases h
    · rw [List.cons_append, List.cons_append, List.cons_lex_cons_iff, List.cons_lex_cons_iff,
        ih (Nat.succ.inj h), List.cons.injEq, and_or_left, or_assoc, and_assoc]

/-! ### Digits -/

/-- A number is compared by its higher digits first. -/
theorem add_mul_lt_iff {d e q p : ℕ} (hd : d < base) (he : e < base) :
    d + base * q < e + base * p ↔ q < p ∨ q = p ∧ d < e := by
  rcases lt_trichotomy q p with hlt | rfl | hgt
  · have hstep : base * (q + 1) ≤ base * p := Nat.mul_le_mul_left base hlt
    rw [Nat.mul_succ] at hstep
    exact iff_of_true (by omega) (.inl hlt)
  · rw [Nat.add_lt_add_iff_right]
    exact ⟨fun h => .inr ⟨rfl, h⟩, fun h => h.elim (fun hlt => absurd hlt (lt_irrefl q)) And.right⟩
  · have hstep : base * (p + 1) ≤ base * q := Nat.mul_le_mul_left base hgt
    rw [Nat.mul_succ] at hstep
    exact iff_of_false (by omega) fun h => h.elim (Nat.lt_asymm hgt) fun he => hgt.ne' he.1

theorem add_mul_inj_iff {d e q p : ℕ} (hd : d < base) (he : e < base) :
    d + base * q = e + base * p ↔ q = p ∧ d = e := by
  have hlt := add_mul_lt_iff (q := q) (p := p) hd he
  have hgt := add_mul_lt_iff (q := p) (p := q) he hd
  omega

/-- The last digit and the digits before it. -/
theorem mod_pow_succ_eq (v n : ℕ) : v % base ^ (n + 1) = v % base + base * (v / base % base ^ n) := by
  rw [Nat.pow_succ', Nat.mod_mul]

/-! ### Numerals -/

/-- The last `n` digits of a number, the highest first. -/
def numeral (symbol : ℕ → α) (base : ℕ) : ℕ → ℕ → List α
  | 0, _ => []
  | n + 1, v => numeral symbol base n (v / base) ++ [symbol (v % base)]

@[simp] theorem length_numeral (n v : ℕ) : (numeral symbol base n v).length = n := by
  induction n generalizing v with
  | zero => rfl
  | succ n ih => rw [numeral, List.length_append, ih, List.length_singleton]

/-- The numeral determines the digits it writes. -/
theorem numeral_inj_iff (hbase : 0 < base) (hsymbol : Set.InjOn symbol (Set.Iio base)) (n v w : ℕ) :
    numeral symbol base n v = numeral symbol base n w ↔ v % base ^ n = w % base ^ n := by
  induction n generalizing v w with
  | zero => simp [numeral, Nat.mod_one]
  | succ n ih =>
    have hv : v % base < base := Nat.mod_lt v hbase
    have hw : w % base < base := Nat.mod_lt w hbase
    rw [mod_pow_succ_eq, mod_pow_succ_eq, add_mul_inj_iff hv hw, ← ih, ← hsymbol.eq_iff hv hw, numeral, numeral]
    constructor
    · intro h
      obtain ⟨hinit, hlast⟩ := List.append_inj h (by rw [length_numeral, length_numeral])
      exact ⟨hinit, (List.cons.inj hlast).1⟩
    · rintro ⟨hinit, hlast⟩
      rw [hinit, hlast]

/-! ### Reading -/

/-- The number a numeral stands for. -/
def value (digit : α → ℕ) (base : ℕ) (l : List α) : ℕ := l.foldl (fun v c => base * v + digit c) 0

/-! ### Order -/

/-- The symbols are ordered as the digits they stand for. -/
def Ascends (r : α → α → Prop) (symbol : ℕ → α) (base : ℕ) : Prop :=
  ∀ d < base, ∀ e < base, r (symbol d) (symbol e) ↔ d < e

theorem Ascends.injOn (h : Ascends r symbol base) : Set.InjOn symbol (Set.Iio base) := by
  intro d hd e he heq
  have hle : ¬ d < e := fun hlt => by
    have hr := (h d hd e he).mpr hlt
    rw [← heq] at hr
    exact lt_irrefl d ((h d hd d hd).mp hr)
  have hge : ¬ e < d := fun hgt => by
    have hr := (h e he d hd).mpr hgt
    rw [← heq] at hr
    exact lt_irrefl d ((h d hd d hd).mp hr)
  omega

/-- **Numerals of one length are ordered as the numbers they write.** -/
theorem numeral_lex_iff (hbase : 0 < base) (h : Ascends r symbol base) (n v w : ℕ) :
    List.Lex r (numeral symbol base n v) (numeral symbol base n w) ↔ v % base ^ n < w % base ^ n := by
  induction n generalizing v w with
  | zero => simp [numeral, Nat.mod_one]
  | succ n ih =>
    have hv : v % base < base := Nat.mod_lt v hbase
    have hw : w % base < base := Nat.mod_lt w hbase
    rw [mod_pow_succ_eq, mod_pow_succ_eq, add_mul_lt_iff hv hw, numeral, numeral,
      lex_append_iff (by rw [length_numeral, length_numeral]), ih, numeral_inj_iff hbase h.injOn,
      List.lex_singleton_iff, h _ hv _ hw]

end Positional
