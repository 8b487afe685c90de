/-
LiveProbe/WordMixing.lean

Mixing a word with a key: the word is multiplied by an odd factor and rotated,
and the key is xored in.

Each of these steps can be undone, so a mix determines the word when the key is
known and the key when the word is (`mix_left_inj`, `mix_key_inj`).  It does not
determine both.  Two words have one mix exactly for the keys whose xor is that
of the mixes without a key (`mix_eq_mix_iff`).
-/
import Mathlib.Data.Nat.ModEq
import Mathlib.Data.Nat.Prime.Basic

namespace WordMixing

variable {w : ℕ} {factor x y key key' : BitVec w} {rotation n : ℕ}

/-! ### Multiplication -/

/-- An odd factor can be divided out of the low bits. -/
theorem mul_mod_two_pow_inj (hfactor : Odd factor.toNat) (hn : n ≤ w) :
    (x * factor).toNat % 2 ^ n = (y * factor).toNat % 2 ^ n ↔ x.toNat % 2 ^ n = y.toNat % 2 ^ n := by
  have hdvd : 2 ^ n ∣ 2 ^ w := pow_dvd_pow 2 hn
  have hcoprime : Nat.Coprime (2 ^ n) factor.toNat := (Nat.coprime_two_left.mpr hfactor).pow_left n
  rw [BitVec.toNat_mul, BitVec.toNat_mul, Nat.mod_mod_of_dvd _ hdvd, Nat.mod_mod_of_dvd _ hdvd]
  constructor
  · intro h
    exact Nat.ModEq.cancel_right_of_coprime hcoprime h
  · intro h
    exact Nat.ModEq.mul_right _ h

theorem mul_left_inj (hfactor : Odd factor.toNat) : x * factor = y * factor ↔ x = y := by
  have h := mul_mod_two_pow_inj (x := x) (y := y) hfactor le_rfl
  rwa [Nat.mod_eq_of_lt (x * factor).isLt, Nat.mod_eq_of_lt (y * factor).isLt, Nat.mod_eq_of_lt x.isLt,
    Nat.mod_eq_of_lt y.isLt, BitVec.toNat_inj, BitVec.toNat_inj] at h

/-! ### Rotation -/

/-- A rotation to the right takes the bits back. -/
theorem rotateRight_rotateLeft (x : BitVec w) (r : ℕ) : (x.rotateLeft r).rotateRight r = x := by
  rcases w.eq_zero_or_pos with rfl | hw
  · exact BitVec.eq_of_zero_length rfl
  refine BitVec.eq_of_getLsbD_eq fun i hi => ?_
  have hr : r % w < w := Nat.mod_lt r hw
  rw [BitVec.getLsbD_rotateRight, BitVec.getLsbD_rotateLeft, BitVec.getLsbD_rotateLeft]
  by_cases hlow : i < w - r % w
  · -- a bit that was shifted up
    have hge : ¬ r % w + i < r % w := by omega
    have hlt : r % w + i < w := by omega
    have hback : r % w + i - r % w = i := by omega
    rw [decide_eq_true hlow, decide_eq_false hge, decide_eq_true hlt, hback]
    rfl
  · -- a bit that came in at the low end
    have hlt : i - (w - r % w) < r % w := by omega
    have hback : w - r % w + (i - (w - r % w)) = i := by omega
    rw [decide_eq_false hlow, decide_eq_true hlt, hback, decide_eq_true hi]
    rfl

theorem rotateLeft_inj {r : ℕ} : x.rotateLeft r = y.rotateLeft r ↔ x = y := by
  constructor
  · intro h
    rw [← rotateRight_rotateLeft x r, h, rotateRight_rotateLeft]
  · intro h
    rw [h]

/-! ### Mixes -/

def mix (factor : BitVec w) (rotation : ℕ) (x key : BitVec w) : BitVec w :=
  (x * factor).rotateLeft rotation ^^^ key

/-- Under one key a mix determines the word. -/
theorem mix_left_inj (hfactor : Odd factor.toNat) :
    mix factor rotation x key = mix factor rotation y key ↔ x = y := by
  rw [mix, mix, BitVec.xor_left_inj, rotateLeft_inj, mul_left_inj hfactor]

/-- For one word a mix determines the key. -/
theorem mix_key_inj : mix factor rotation x key = mix factor rotation x key' ↔ key = key' := by
  rw [mix, mix, BitVec.xor_right_inj]

@[simp] theorem mix_zero : mix factor rotation x 0#w = (x * factor).rotateLeft rotation := BitVec.xor_zero

/-- The two inner words of an equation change sides. -/
theorem xor_swap {a b c d : BitVec w} (h : a ^^^ b = c ^^^ d) : a ^^^ c = b ^^^ d := by
  have hbits : ∀ p q r s : Bool, (p ^^ q) = (r ^^ s) → (p ^^ r) = (q ^^ s) := by decide
  refine BitVec.eq_of_getLsbD_eq fun i _ => ?_
  have hbit := congrArg (fun m : BitVec w => m.getLsbD i) h
  simp only [BitVec.getLsbD_xor] at hbit ⊢
  exact hbits _ _ _ _ hbit

/-- Two words have one mix under the keys that differ as their mixes do. -/
theorem mix_eq_mix_iff :
    mix factor rotation x key = mix factor rotation y key' ↔
      mix factor rotation x 0#w ^^^ mix factor rotation y 0#w = key ^^^ key' := by
  rw [mix_zero, mix_zero, mix, mix]
  exact ⟨xor_swap, xor_swap⟩

end WordMixing
