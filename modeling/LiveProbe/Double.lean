/-
LiveProbe/Double.lean

Rounding to binary64, on exact rationals.

A finite double is the rational it denotes and a sign, which only tells the two
zeros apart.  `round q` is the double nearest to `q`, ties to the even
significand, or nothing where that is an infinity; the operations are the exact
ones, rounded.

The integers a double holds exactly are safe: rounding leaves them alone, and
takes no integer outside their range into it (`rounded_intCast`).  So an
arithmetic on exact integers and one on doubles tell apart no results that are
safe.
-/
import Mathlib.Data.Int.Log
import Mathlib.Data.Rat.Floor
import Mathlib.Tactic.Linarith
import Mathlib.Tactic.Positivity

namespace Binary64

/-- The nearest integer, ties to even. -/
def roundHalfEven (q : ℚ) : ℤ :=
  let rest := q - ⌊q⌋
  if rest < 1 / 2 ∨ rest = 1 / 2 ∧ ⌊q⌋ % 2 = 0 then ⌊q⌋ else ⌊q⌋ + 1

/-- The exponent of the last of 53 bits; small numbers have fewer. -/
def lastBit (q : ℚ) : ℤ := max (Int.log 2 |q|) (-1022) - 52

/-- The nearest double, unless it is an infinity. -/
def round (q : ℚ) : Option ℚ :=
  let r := roundHalfEven (q / 2 ^ lastBit q) * (2 : ℚ) ^ lastBit q
  if |r| < 2 ^ 1024 then some r else none

/-- `MAX_SAFE_INTEGER` and everything up to it, of either sign. -/
def maxSafe : ℕ := 2 ^ 53 - 1

/-! ### Rounding to integers -/

theorem roundHalfEven_intCast (z : ℤ) : roundHalfEven z = z := by
  unfold roundHalfEven
  rw [Int.floor_intCast, sub_self]
  exact if_pos (.inl (by norm_num))

theorem le_roundHalfEven {z : ℤ} {q : ℚ} (h : (z : ℚ) ≤ q) : z ≤ roundHalfEven q := by
  have hfloor : z ≤ ⌊q⌋ := Int.le_floor.mpr h
  unfold roundHalfEven
  dsimp only
  split
  · exact hfloor
  · exact hfloor.trans (Int.le_add_one le_rfl)

theorem roundHalfEven_le {z : ℤ} {q : ℚ} (h : q ≤ z) : roundHalfEven q ≤ z := by
  have hfloor : ⌊q⌋ ≤ z := Int.cast_le.mp ((Int.floor_le q).trans h)
  unfold roundHalfEven
  dsimp only
  split
  · exact hfloor
  · rename_i hrest
    -- a number that is rounded up is no integer
    have hne : ⌊q⌋ ≠ z := by
      intro heq
      refine hrest (.inl ?_)
      have hle : q ≤ ⌊q⌋ := heq ▸ h
      linarith
    exact Int.add_one_le_of_lt (lt_of_le_of_ne hfloor hne)

/-- A number of this size stays of this size. -/
theorem le_abs_roundHalfEven {n : ℕ} {q : ℚ} (h : (n : ℚ) ≤ |q|) : (n : ℤ) ≤ |roundHalfEven q| := by
  rcases le_abs.mp h with hpos | hneg
  · exact (le_roundHalfEven (by exact_mod_cast hpos)).trans (le_abs_self _)
  · have hle : roundHalfEven q ≤ -(n : ℤ) := roundHalfEven_le (by push_cast; linarith)
    exact (le_neg_of_le_neg hle).trans (neg_le_abs _)

/-! ### Rounding to doubles -/

/-- Up to here the last bit counts no more than one. -/
theorem lastBit_nonpos {q : ℚ} (h : |q| < 2 ^ 53) : lastBit q ≤ 0 := by
  unfold lastBit
  rcases eq_or_ne q 0 with rfl | hq
  · rw [abs_zero, Int.log_zero_right]
    decide
  · have hpos : (0 : ℚ) < |q| := abs_pos.mpr hq
    have hlog : Int.log 2 |q| < 53 := (Int.lt_zpow_iff_log_lt (by norm_num) hpos).mp (by
      exact_mod_cast h)
    omega

/-- There an integer is a whole number of last bits. -/
theorem intCast_div_lastBit {q : ℚ} (h : |q| < 2 ^ 53) (z : ℤ) :
    ∃ w : ℤ, (z : ℚ) / 2 ^ lastBit q = w := by
  have hbit := lastBit_nonpos h
  obtain ⟨n, hn⟩ : ∃ n : ℕ, lastBit q = -n := ⟨(lastBit q).natAbs, by omega⟩
  refine ⟨z * 2 ^ n, ?_⟩
  rw [hn, zpow_neg, zpow_natCast, div_inv_eq_mul]
  push_cast
  rfl

/-- A safe integer is a double. -/
theorem round_intCast {z : ℤ} (h : z.natAbs ≤ maxSafe) : round z = some (z : ℚ) := by
  have habs : |(z : ℚ)| < 2 ^ 53 := by
    rw [← Int.cast_abs, Int.abs_eq_natAbs]
    unfold maxSafe at h
    exact_mod_cast (by omega : z.natAbs < 2 ^ 53)
  obtain ⟨w, hscaled⟩ := intCast_div_lastBit habs z
  have hback : (w : ℚ) * 2 ^ lastBit z = z := by
    rw [← hscaled, div_mul_cancel₀ _ (zpow_ne_zero _ two_ne_zero)]
  unfold round
  rw [hscaled, roundHalfEven_intCast]
  dsimp only
  rw [hback]
  exact if_pos (habs.trans (pow_lt_pow_right₀ one_lt_two (by norm_num)))

/-- A rounded number is a whole number of last bits. -/
theorem eq_of_round {q r : ℚ} (hr : round q = some r) : r = roundHalfEven (q / 2 ^ lastBit q) * 2 ^ lastBit q := by
  unfold round at hr
  dsimp only at hr
  split at hr
  · exact (Option.some.inj hr).symm
  · cases hr

/-- Beyond the safe integers a rounded number is an integer beyond them. -/
theorem round_of_large {q r : ℚ} (h : (2 : ℚ) ^ 53 ≤ |q|) (hr : round q = some r) :
    ∃ z : ℤ, r = z ∧ maxSafe < z.natAbs := by
  have hpos : (0 : ℚ) < |q| := lt_of_lt_of_le (by norm_num) h
  have hlog : 53 ≤ Int.log 2 |q| := (Int.zpow_le_iff_le_log (by norm_num) hpos).mp (by exact_mod_cast h)
  obtain ⟨n, hn⟩ : ∃ n : ℕ, lastBit q = n + 1 := ⟨(lastBit q - 1).toNat, by unfold lastBit; omega⟩
  have hunit : (2 : ℚ) ^ lastBit q = ((2 ^ (n + 1) : ℤ) : ℚ) := by
    rw [hn]
    exact_mod_cast (zpow_natCast (2 : ℚ) (n + 1))
  have hscaled : ((2 ^ 52 : ℕ) : ℚ) ≤ |q / 2 ^ lastBit q| := by
    have hscale : (0 : ℚ) < 2 ^ lastBit q := zpow_pos two_pos _
    rw [abs_div, abs_of_pos hscale, le_div_iff₀ hscale]
    calc ((2 ^ 52 : ℕ) : ℚ) * 2 ^ lastBit q = (2 : ℚ) ^ (52 + lastBit q) := by
          rw [zpow_add₀ two_ne_zero]
          norm_num
      _ = ((2 : ℕ) : ℚ) ^ Int.log 2 |q| := by
          unfold lastBit
          rw [max_eq_left (by omega)]
          norm_num
      _ ≤ |q| := Int.zpow_log_le_self (by norm_num) hpos
  have hround := le_abs_roundHalfEven hscaled
  refine ⟨roundHalfEven (q / 2 ^ lastBit q) * 2 ^ (n + 1), ?_, ?_⟩
  · rw [eq_of_round hr, hunit]
    push_cast
    rfl
  · rw [Int.natAbs_mul, Int.natAbs_pow]
    have hnat : 2 ^ 52 ≤ (roundHalfEven (q / 2 ^ lastBit q)).natAbs := by
      rw [Int.abs_eq_natAbs] at hround
      exact_mod_cast hround
    unfold maxSafe
    calc 2 ^ 53 - 1 < 2 ^ 52 * 2 := by norm_num
      _ ≤ (roundHalfEven (q / 2 ^ lastBit q)).natAbs * 2 := Nat.mul_le_mul_right 2 hnat
      _ ≤ (roundHalfEven (q / 2 ^ lastBit q)).natAbs * (2 : ℤ).natAbs ^ (n + 1) :=
        Nat.mul_le_mul_left _ (Nat.le_self_pow (Nat.succ_ne_zero n) 2)

/-- A number that is rounded to a fraction is small. -/
theorem abs_lt_of_round {d q : ℚ} (hr : round d = some q) (hq : q.den ≠ 1) : |d| < 2 ^ 53 := by
  by_contra hlarge
  obtain ⟨z, rfl, -⟩ := round_of_large (not_lt.mp hlarge) hr
  exact hq (Rat.den_intCast z)

/-- Rounding to a fraction crosses no integer upwards. -/
theorem round_le_intCast {d q : ℚ} {z : ℤ} (hr : round d = some q) (hq : q.den ≠ 1)
    (h : d ≤ z) : q ≤ z := by
  have hsmall := abs_lt_of_round hr hq
  have hscale : (0 : ℚ) < 2 ^ lastBit d := zpow_pos two_pos _
  obtain ⟨w, hw⟩ := intCast_div_lastBit hsmall z
  have hround : roundHalfEven (d / 2 ^ lastBit d) ≤ w := by
    apply roundHalfEven_le
    rw [← hw]
    exact div_le_div_of_nonneg_right h hscale.le
  rw [eq_of_round hr, ← div_mul_cancel₀ (z : ℚ) hscale.ne', hw]
  exact mul_le_mul_of_nonneg_right (Int.cast_le.mpr hround) hscale.le

/-- Rounding to a fraction crosses no integer downwards. -/
theorem intCast_le_round {d q : ℚ} {z : ℤ} (hr : round d = some q) (hq : q.den ≠ 1)
    (h : (z : ℚ) ≤ d) : (z : ℚ) ≤ q := by
  have hsmall := abs_lt_of_round hr hq
  have hscale : (0 : ℚ) < 2 ^ lastBit d := zpow_pos two_pos _
  obtain ⟨w, hw⟩ := intCast_div_lastBit hsmall z
  have hround : w ≤ roundHalfEven (d / 2 ^ lastBit d) := by
    apply le_roundHalfEven
    rw [← hw]
    exact div_le_div_of_nonneg_right h hscale.le
  rw [eq_of_round hr, ← div_mul_cancel₀ (z : ℚ) hscale.ne', hw]
  exact mul_le_mul_of_nonneg_right (Int.cast_le.mpr hround) hscale.le

/-! ### Signed doubles -/

/-- A finite double.  Of a number that is not zero the sign is known. -/
structure Double where
  value : ℚ
  negative : Bool
  negative_eq : value ≠ 0 → negative = decide (value < 0)
  deriving DecidableEq

namespace Double

/-- The double of this value; `zero` is the sign a zero gets. -/
def ofRat (zero : Bool) (q : ℚ) : Double where
  value := q
  negative := if q = 0 then zero else decide (q < 0)
  negative_eq h := if_neg h

@[simp] theorem value_ofRat (zero : Bool) (q : ℚ) : (ofRat zero q).value = q := rfl

def neg (a : Double) : Double := ofRat (!a.negative) (-a.value)

@[simp] theorem value_neg (a : Double) : a.neg.value = -a.value := rfl

/-- The double nearest to an exact result. -/
def rounded (zero : Bool) (q : ℚ) : Option Double := (round q).map (ofRat zero)

/-- A sum is the negative zero only where both terms are. -/
def add (a b : Double) : Option Double :=
  rounded (a.negative && b.negative) (a.value + b.value)

def sub (a b : Double) : Option Double := a.add b.neg

def mul (a b : Double) : Option Double :=
  rounded (a.negative ^^ b.negative) (a.value * b.value)

/-- For divisors other than zero. -/
def div (a b : Double) : Option Double :=
  rounded (a.negative ^^ b.negative) (a.value / b.value)

/-- Rounding towards zero. -/
def trunc (q : ℚ) : ℤ := q.num.tdiv q.den

/-- The remainder of the truncated quotient, which is exact and has the sign of
the dividend. -/
def rem (a b : Double) : Double :=
  ofRat a.negative (a.value - b.value * trunc (a.value / b.value))

/-- A fraction, or an integer in the safe range. -/
def portable (a : Double) : Bool := a.value.den ≠ 1 || a.value.num.natAbs ≤ maxSafe

/-- The total order of doubles: the negative zero comes before the positive. -/
def compare (a b : Double) : Ordering :=
  if a.value < b.value then .lt
  else if b.value < a.value then .gt
  else if a.negative = b.negative then .eq
  else if a.negative then .lt
  else .gt

/-- The two zeros, in either order. -/
def OppositeZeros (a b : Double) : Prop :=
  a.value = 0 ∧ b.value = 0 ∧ a.negative ≠ b.negative

instance (a b : Double) : Decidable (OppositeZeros a b) :=
  inferInstanceAs (Decidable (_ ∧ _ ∧ _))

/-! ### Values of results -/

theorem map_value_rounded (zero : Bool) (q : ℚ) : (rounded zero q).map value = round q := by
  unfold rounded
  rw [Option.map_map]
  exact congrFun Option.map_id (round q)

/-! A result is the exact one, rounded; what sign a zero gets is left open. -/

theorem add_eq_rounded (a b : Double) :
    ∃ zero, a.add b = rounded zero (a.value + b.value) :=
  ⟨_, rfl⟩

theorem sub_eq_rounded (a b : Double) :
    ∃ zero, a.sub b = rounded zero (a.value - b.value) := by
  obtain ⟨zero, h⟩ := add_eq_rounded a b.neg
  refine ⟨zero, ?_⟩
  rw [sub, h, value_neg, sub_eq_add_neg]

theorem mul_eq_rounded (a b : Double) :
    ∃ zero, a.mul b = rounded zero (a.value * b.value) :=
  ⟨_, rfl⟩

theorem map_value_div (a b : Double) : (a.div b).map value = round (a.value / b.value) :=
  map_value_rounded _ _

@[simp] theorem trunc_intCast (z : ℤ) : trunc z = z := Int.tdiv_one z

/-! ### Safe integers -/

theorem portable_of_intCast {a : Double} {z : ℤ} (h : a.value = z) :
    a.portable = decide (z.natAbs ≤ maxSafe) := by
  unfold portable
  rw [h, Rat.den_intCast, Rat.num_intCast]
  rfl

/-- **Exact integers and doubles agree on safe results**: a rounded integer is
portable exactly when the integer is safe, and is then that integer. -/
theorem rounded_intCast (zero : Bool) (z : ℤ) :
    (rounded zero z).filter portable
      = if z.natAbs ≤ maxSafe then some (ofRat zero z) else none := by
  by_cases hz : z.natAbs ≤ maxSafe
  · rw [if_pos hz, rounded, round_intCast hz]
    show (some (ofRat zero z)).filter portable = _
    rw [Option.filter_some, portable_of_intCast (value_ofRat zero z), decide_eq_true hz]
    rfl
  · rw [if_neg hz, rounded]
    rcases hround : round z with - | r
    · rfl
    · have hlarge : (2 : ℚ) ^ 53 ≤ |(z : ℚ)| := by
        rw [← Int.cast_abs, Int.abs_eq_natAbs]
        unfold maxSafe at hz
        exact_mod_cast (by omega : 2 ^ 53 ≤ z.natAbs)
      obtain ⟨z', rfl, hz'⟩ := round_of_large hlarge hround
      show (some (ofRat zero z')).filter portable = none
      rw [Option.filter_some, portable_of_intCast (value_ofRat zero z'),
        decide_eq_false (not_le.mpr hz')]
      rfl

/-! ### The total order -/

/-- The total order is the order of the values, the two zeros aside. -/
theorem compare_eq_cmp {a b : Double} (h : ¬ OppositeZeros a b) :
    a.compare b = cmp a.value b.value := by
  rcases lt_trichotomy a.value b.value with hlt | heq | hgt
  · rw [compare, if_pos hlt, hlt.cmp_eq_lt]
  · have hneg : a.negative = b.negative := by
      by_contra hne
      by_cases hzero : b.value = 0
      · exact h ⟨heq.trans hzero, hzero, hne⟩
      · apply hne
        rw [a.negative_eq (heq ▸ hzero), b.negative_eq hzero, heq]
    rw [compare, if_neg (not_lt.mpr heq.ge), if_neg (not_lt.mpr heq.le), if_pos hneg,
      (cmp_eq_eq_iff _ _).mpr heq]
  · rw [compare, if_neg (not_lt.mpr hgt.le), if_pos hgt, hgt.cmp_eq_gt]

end Double

end Binary64
