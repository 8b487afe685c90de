/-
LiveProbe/NumberText.lean

`String(number)` of a finite double: the fewest digits that are read back as the
number, the nearest of these where there are several, with the point or an
exponent set as ECMAScript sets them.
-/
import LiveProbe.Double
import LiveProbe.JsString

open JsString

namespace Binary64

/-! ### The shortest digits -/

/-- How many of the digits of a number stand before its point. -/
def pointPosition (q : ℚ) : ℤ := Int.log 10 q + 1

/-- The numerals of so many digits next to a number, below and above. -/
def digitsBelow (q scale : ℚ) : ℕ := ⌊q / scale⌋.toNat

/-- The nearest numeral of `k` digits that is read as `q`, if one is. -/
def nearestDigits (q : ℚ) (n : ℤ) (k : ℕ) : Option ℕ :=
  let scale := (10 : ℚ) ^ (n - k)
  let below := digitsBelow q scale
  let down := q - below * scale
  let up := (below + 1) * scale - q
  match decide (round (below * scale) = some q), decide (round ((below + 1) * scale) = some q) with
  | true, true => some (if up < down ∨ up = down ∧ below % 2 = 1 then below + 1 else below)
  | true, false => some below
  | false, true => some (below + 1)
  | false, false => none

/-- The digits of a positive number and the place of its point; a double has no
more than 17. -/
def shortestDigits (q : ℚ) : ℕ × ℤ :=
  let n := pointPosition q
  let digits k := (nearestDigits q n k).map fun s => if s = 10 ^ k then (1, n + 1) else (s, n)
  ((List.range 17).findSome? fun k => digits (k + 1)).getD (digitsBelow q (10 ^ (n - 17)), n)

/-! ### Their text -/

/-- Digits with the point after the `n`th. -/
def placePoint (digits : JsString) (n : ℤ) : JsString :=
  if -5 ≤ n ∧ n ≤ 21 then
    if digits.length ≤ n then digits ++ List.replicate (n.toNat - digits.length) 0x30
    else if 0 < n then digits.take n.toNat ++ 0x2E :: digits.drop n.toNat
    else js "0." ++ List.replicate (-n).toNat 0x30 ++ digits
  else
    digits.take 1 ++ (if digits.length = 1 then [] else 0x2E :: digits.drop 1) ++
      js (if 0 < n then "e+" else "e-") ++ decimal (n - 1).natAbs

/-- `String(number)`; the sign of a zero is not written. -/
def Double.text (a : Double) : JsString :=
  if a.value = 0 then js "0"
  else
    let digits := shortestDigits |a.value|
    (if a.value < 0 then js "-" else []) ++ placePoint (decimal digits.1) digits.2

theorem decimal_head (n : ℕ) : ∃ c, (decimal n).head? = some c ∧ isDigit c = true := by
  rcases hdigits : decimal n with - | ⟨c, rest⟩
  · refine absurd hdigits ?_
    unfold decimal
    intro hnil
    exact Nat.toDigits_ne_nil (List.map_eq_nil_iff.mp hnil)
  · refine ⟨c, rfl, isDigit_of_mem_decimal (n := n) ?_⟩
    rw [hdigits]
    exact List.mem_cons_self ..

theorem placePoint_head {digits : JsString} {c : UInt16} (n : ℤ) (h : digits.head? = some c)
    (hc : isDigit c = true) : ∃ d, (placePoint digits n).head? = some d ∧ isDigit d = true := by
  rcases digits with - | ⟨d, rest⟩
  · cases h
  · cases h
    unfold placePoint
    split
    · split
      · exact ⟨c, rfl, hc⟩
      · split
        · rename_i hpos
          obtain ⟨m, hm⟩ : ∃ m, n.toNat = m + 1 := ⟨n.toNat - 1, by omega⟩
          rw [hm]
          exact ⟨c, rfl, hc⟩
        · exact ⟨0x30, rfl, by decide⟩
    · exact ⟨c, rfl, hc⟩

/-- The text of a number that is not negative starts with a digit. -/
theorem Double.text_head {a : Double} (h : 0 ≤ a.value) :
    ∃ c, a.text.head? = some c ∧ isDigit c = true := by
  unfold Double.text
  split
  · exact ⟨0x30, by decide, by decide⟩
  · obtain ⟨c, hhead, hc⟩ := decimal_head (shortestDigits |a.value|).1
    rw [if_neg (not_lt.mpr h)]
    exact placePoint_head _ hhead hc

end Binary64
