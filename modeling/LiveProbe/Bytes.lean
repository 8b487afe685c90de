/-
LiveProbe/Bytes.lean

Little-endian words and partial byte memories.

A run of bytes is a function from positions to bytes; `word b n` is the number
its first `n` bytes stand for and `leByte v` writes a number back.  A memory
gives a byte for some addresses only, and a read succeeds when every byte of it
is there.
-/
import Mathlib.Data.Nat.Basic
import Mathlib.Tactic.Ring
import Mathlib.Tactic.IntervalCases

namespace Bytes

/-- The number the first `n` bytes stand for, the lowest byte first. -/
def word (b : ℕ → UInt8) : ℕ → ℕ
  | 0 => 0
  | n + 1 => word b n + (b n).toNat * 256 ^ n

/-- The byte of a number at a position. -/
def leByte (v i : ℕ) : UInt8 := UInt8.ofNat (v / 256 ^ i)

variable {b c : ℕ → UInt8} {m n v : ℕ}

theorem word_lt (b : ℕ → UInt8) (n : ℕ) : word b n < 256 ^ n := by
  induction n with
  | zero => simp [word]
  | succ n ih =>
    have hb : (b n).toNat < 256 := (b n).toNat_lt
    calc word b n + (b n).toNat * 256 ^ n
        < 256 ^ n + (b n).toNat * 256 ^ n := by omega
      _ = ((b n).toNat + 1) * 256 ^ n := by ring
      _ ≤ 256 * 256 ^ n := Nat.mul_le_mul_right _ hb
      _ = 256 ^ (n + 1) := by ring

theorem word_congr (h : ∀ i < n, b i = c i) : word b n = word c n := by
  induction n with
  | zero => rfl
  | succ n ih =>
    rw [word, word, ih fun i hi => h i (by omega), h n (by omega)]

/-- Zero bytes at the upper end do not count. -/
theorem word_of_zeros (hm : m ≤ n) (h : ∀ i, m ≤ i → i < n → b i = 0) : word b n = word b m := by
  induction n, hm using Nat.le_induction with
  | base => rfl
  | succ n hm ih =>
    rw [word, ih fun i hi hn => h i hi (by omega), h n hm (by omega)]
    simp

/-- The lower bytes are what is left of a word. -/
theorem word_mod (hm : m ≤ n) : word b n % 256 ^ m = word b m := by
  induction n, hm using Nat.le_induction with
  | base => exact Nat.mod_eq_of_lt (word_lt b m)
  | succ n hm ih =>
    obtain ⟨k, hk⟩ := pow_dvd_pow 256 hm
    rw [word, hk, mul_left_comm, Nat.add_mul_mod_self_left, ih]

@[simp] theorem toNat_leByte (v i : ℕ) : (leByte v i).toNat = v / 256 ^ i % 256 := by
  simp [leByte]

theorem word_leByte (v n : ℕ) : word (leByte v) n = v % 256 ^ n := by
  induction n with
  | zero => simp [word, Nat.mod_one]
  | succ n ih =>
    rw [word, ih, toNat_leByte, pow_succ, Nat.mod_mul]
    ring

/-! ### Signs -/

/-- The two's complement reading of an `n`-byte word. -/
def signed (n v : ℕ) : ℤ := if v < 256 ^ n / 2 then v else v - 256 ^ n

/-! ### Memories -/

/-- A memory some addresses of which can be read. -/
abbrev Memory := ℕ → Option UInt8

namespace Memory

variable (mem : Memory)

/-- The bytes from an address on, if all `n` of them can be read. -/
def read (address n : ℕ) : Option (ℕ → UInt8) :=
  if ∀ i < n, (mem (address + i)).isSome then some fun i => (mem (address + i)).getD 0 else none

variable {mem}

theorem read_le {address : ℕ} {bytes : ℕ → UInt8} (h : m ≤ n) (hread : mem.read address n = some bytes) :
    mem.read address m = some bytes := by
  unfold read at hread ⊢
  split at hread
  · next hall => exact (if_pos fun i hi => hall i (hi.trans_le h)).trans hread
  · cases hread

end Memory

end Bytes
