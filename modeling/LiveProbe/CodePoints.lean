/-
LiveProbe/CodePoints.lean

A text as code points, the way a runtime that does not count in UTF-16 units
holds it: the two units of a surrogate pair are one code point, a lone surrogate
is a code point of its own.  The units can be had back (`units_codePoints`), and
two texts can be joined in either form unless the joint makes a pair
(`codePoints_append`).

The numerals that `decimal` writes are the texts of digits without a leading
zero (`decimal_numeral`).
-/
import LiveProbe.JsString

namespace JsString

/-! ### Code points -/

/-- The code point of a surrogate pair. -/
def pairPoint (c d : UInt16) : ℕ := 0x10000 + (c.toNat - 0xD800) * 0x400 + (d.toNat - 0xDC00)

def codePoints : JsString → List ℕ
  | [] => []
  | [c] => [c.toNat]
  | c :: d :: t =>
    if isHighSurrogate c && isLowSurrogate d then pairPoint c d :: codePoints t
    else c.toNat :: codePoints (d :: t)

/-- The units of a code point. -/
def pointUnits (p : ℕ) : JsString :=
  if p < 0x10000 then [p.toUInt16]
  else [(0xD800 + (p - 0x10000) / 0x400).toUInt16, (0xDC00 + (p - 0x10000) % 0x400).toUInt16]

theorem pointUnits_toNat (c : UInt16) : pointUnits c.toNat = [c] := by
  rw [pointUnits, if_pos c.toNat_lt]
  exact congrArg (· :: []) (UInt16.ofNat_toNat)

theorem pointUnits_pairPoint {c d : UInt16} (hc : isHighSurrogate c = true)
    (hd : isLowSurrogate d = true) : pointUnits (pairPoint c d) = [c, d] := by
  simp only [isHighSurrogate, isLowSurrogate, Bool.and_eq_true, decide_eq_true_eq,
    UInt16.le_iff_toNat_le, UInt16.reduceToNat] at hc hd
  have hhigh : 0xD800 + (pairPoint c d - 0x10000) / 0x400 = c.toNat := by
    unfold pairPoint
    omega
  have hlow : 0xDC00 + (pairPoint c d - 0x10000) % 0x400 = d.toNat := by
    unfold pairPoint
    omega
  rw [pointUnits, if_neg (by unfold pairPoint; omega), hhigh, hlow]
  exact congrArg₂ (fun x y => [x, y]) UInt16.ofNat_toNat UInt16.ofNat_toNat

/-- The code points determine the text. -/
theorem units_codePoints (s : JsString) : (codePoints s).flatMap pointUnits = s := by
  induction s using codePoints.induct with
  | case1 => rfl
  | case2 c => rw [codePoints, List.flatMap_singleton, pointUnits_toNat]
  | case3 c d t hpair ih =>
    rw [codePoints, if_pos hpair, List.flatMap_cons, ih]
    have hpair' := Bool.and_eq_true_iff.mp hpair
    rw [pointUnits_pairPoint hpair'.1 hpair'.2]
    rfl
  | case4 c d t hpair ih =>
    rw [codePoints, if_neg hpair, List.flatMap_cons, ih, pointUnits_toNat]
    rfl

theorem codePoints_injective : Function.Injective codePoints := by
  intro s t h
  rw [← units_codePoints s, h, units_codePoints]

theorem codePoints_ne_nil {s : JsString} (h : s ≠ []) : codePoints s ≠ [] := by
  intro hnil
  apply h
  exact codePoints_injective hnil

/-- The joint of two texts is a surrogate pair. -/
def joins (s t : JsString) : Prop :=
  ∃ c d, s.getLast? = some c ∧ t.head? = some d ∧
    isHighSurrogate c = true ∧ isLowSurrogate d = true

theorem codePoints_append {s t : JsString} (h : ¬ joins s t) :
    codePoints (s ++ t) = codePoints s ++ codePoints t := by
  induction s using codePoints.induct with
  | case1 => rfl
  | case2 c =>
    rcases t with - | ⟨d, t⟩
    · rfl
    · have hpair : ¬ (isHighSurrogate c && isLowSurrogate d) = true := by
        intro hpair
        obtain ⟨hc, hd⟩ := Bool.and_eq_true_iff.mp hpair
        exact h ⟨c, d, rfl, rfl, hc, hd⟩
      show codePoints (c :: d :: t) = _
      rw [codePoints, codePoints, if_neg hpair]
      rfl
  | case3 c d u hpair ih =>
    have hrest : ¬ joins u t := by
      rintro ⟨x, y, hx, hy, hhigh, hlow⟩
      refine h ⟨x, y, ?_, hy, hhigh, hlow⟩
      rw [List.getLast?_cons_cons, List.getLast?_cons, hx]
      rfl
    show codePoints (c :: d :: (u ++ t)) = _
    rw [codePoints, if_pos hpair, codePoints, if_pos hpair, ih hrest]
    rfl
  | case4 c d u hpair ih =>
    have hrest : ¬ joins (d :: u) t := by
      rintro ⟨x, y, hx, hy, hhigh, hlow⟩
      exact h ⟨x, y, by rw [List.getLast?_cons_cons, hx], hy, hhigh, hlow⟩
    show codePoints (c :: d :: (u ++ t)) = _
    rw [codePoints, if_neg hpair, codePoints, if_neg hpair]
    exact congrArg (c.toNat :: ·) (ih hrest)

/-- Where the joint makes a pair, the first unit of the second text is not counted. -/
theorem length_codePoints_joined {s t : JsString} (h : joins s t) :
    ∃ d rest, t = d :: rest ∧
      (codePoints (s ++ t)).length = (codePoints s).length + (codePoints rest).length := by
  obtain ⟨c, d, hc, hd, hhigh, hlow⟩ := h
  obtain ⟨init, rfl⟩ := List.getLast?_eq_some_iff.mp hc
  rcases t with - | ⟨e, rest⟩
  · cases hd
  cases hd
  -- the last unit of the first text is no second half of a pair
  have hfree : ∀ u : JsString, ¬ joins init (c :: u) := by
    rintro u ⟨x, y, -, hy, -, hlow'⟩
    cases hy
    simp only [isHighSurrogate, isLowSurrogate, Bool.and_eq_true, decide_eq_true_eq,
      UInt16.le_iff_toNat_le, UInt16.reduceToNat] at hhigh hlow'
    omega
  have hpair : codePoints (c :: d :: rest) = pairPoint c d :: codePoints rest := by
    rw [codePoints, if_pos (by rw [hhigh, hlow]; rfl)]
  have hlone : codePoints [c] = [c.toNat] := rfl
  refine ⟨d, rest, rfl, ?_⟩
  rw [List.append_assoc, List.singleton_append, codePoints_append (hfree (d :: rest)),
    codePoints_append (hfree []), hpair, hlone]
  simp only [List.length_append, List.length_cons, List.length_nil]
  omega

theorem length_codePoints_append_le (s t : JsString) :
    (codePoints s).length ≤ (codePoints (s ++ t)).length := by
  by_cases h : joins s t
  · obtain ⟨d, rest, -, hlength⟩ := length_codePoints_joined h
    omega
  · rw [codePoints_append h, List.length_append]
    exact Nat.le_add_right _ _

/-- A text has no more code points than units. -/
theorem length_codePoints_le (s : JsString) : (codePoints s).length ≤ s.length := by
  induction s using codePoints.induct with
  | case1 => exact le_rfl
  | case2 c => exact le_rfl
  | case3 c d t hpair ih =>
    rw [codePoints, if_pos hpair, List.length_cons, List.length_cons, List.length_cons]
    omega
  | case4 c d t hpair ih =>
    rw [codePoints, if_neg hpair, List.length_cons, List.length_cons]
    exact Nat.succ_le_succ ih

/-- What adds no code point to a text is empty, or the second half of a pair. -/
theorem eq_nil_or_joins {s t : JsString} (h : (codePoints (s ++ t)).length ≤ (codePoints s).length) :
    t = [] ∨ joins s t ∧ t.length = 1 := by
  have hempty : ∀ u : JsString, (codePoints u).length = 0 → u = [] := by
    intro u hu
    by_contra hne
    exact codePoints_ne_nil hne (List.length_eq_zero_iff.mp hu)
  by_cases hjoins : joins s t
  · obtain ⟨d, rest, rfl, hlength⟩ := length_codePoints_joined hjoins
    rw [hempty rest (by omega)] at hjoins ⊢
    exact .inr ⟨hjoins, rfl⟩
  · rw [codePoints_append hjoins, List.length_append] at h
    exact .inl (hempty t (by omega))

/-- Outside the surrogates a unit is a code point. -/
theorem codePoints_eq_map {s : JsString} (h : ∀ c ∈ s, isHighSurrogate c = false) :
    codePoints s = s.map UInt16.toNat := by
  induction s using codePoints.induct with
  | case1 => rfl
  | case2 c => rfl
  | case3 c d t hpair ih =>
    rw [h c (List.mem_cons_self ..)] at hpair
    cases hpair
  | case4 c d t hpair ih =>
    rw [codePoints, if_neg hpair, ih fun e he => h e (List.mem_cons_of_mem c he)]
    rfl

theorem isHighSurrogate_of_isDigit {c : UInt16} (h : isDigit c = true) :
    isHighSurrogate c = false := by
  simp only [isDigit, Bool.and_eq_true, decide_eq_true_eq, UInt16.le_iff_toNat_le,
    UInt16.reduceToNat] at h
  simp only [isHighSurrogate, Bool.and_eq_false_iff, decide_eq_false_iff_not,
    UInt16.le_iff_toNat_le, UInt16.reduceToNat]
  omega

theorem codePoints_decimal (n : ℕ) : codePoints (decimal n) = (decimal n).map UInt16.toNat :=
  codePoints_eq_map fun _ hc => isHighSurrogate_of_isDigit (isDigit_of_mem_decimal hc)

/-! ### Numerals -/

/-- The number a text of digits denotes. -/
def digitsValue (s : JsString) : ℕ := s.foldl (fun n c => 10 * n + (c.toNat - 0x30)) 0

/-- Digits without a leading zero. -/
def IsNumeral (s : JsString) : Prop :=
  s ≠ [] ∧ s.all isDigit = true ∧ (s = js "0" ∨ s.head? ≠ some 0x30)

theorem digitsValue_decimal (n : ℕ) : digitsValue (decimal n) = n := by
  have hread := readDecimal_decimal n
  unfold readDecimal at hread
  split at hread
  · exact Option.some.inj hread
  · cases hread

/-- A numeral that starts with a zero is the zero. -/
theorem head?_toDigits {n : ℕ} (h : 0 < n) : (Nat.toDigits 10 n).head? ≠ some '0' := by
  induction n using Nat.strong_induction_on with
  | _ n ih =>
    rcases Nat.lt_or_ge n 10 with hlt | hge
    · rw [Nat.toDigits_of_lt_base hlt]
      interval_cases n <;> decide
    · rw [Nat.toDigits_of_base_le (by omega) hge, List.head?_append_of_ne_nil _
        Nat.toDigits_ne_nil]
      exact ih (n / 10) (by omega) (by omega)

theorem isNumeral_decimal (n : ℕ) : IsNumeral (decimal n) := by
  refine ⟨?_, List.all_eq_true.mpr fun c hc => isDigit_of_mem_decimal hc, ?_⟩
  · unfold decimal
    exact fun h => Nat.toDigits_ne_nil (List.map_eq_nil_iff.mp h)
  · rcases Nat.eq_zero_or_pos n with rfl | hpos
    · exact .inl rfl
    · refine .inr fun hhead => head?_toDigits hpos ?_
      unfold decimal at hhead
      rw [List.head?_map, Option.map_eq_some_iff] at hhead
      obtain ⟨ch, hch, hunit⟩ := hhead
      have hdigit := Nat.isDigit_of_mem_toDigits (by omega) (by omega) (List.mem_of_head? hch)
      have hnat : ch.toNat = '0'.toNat := by
        rw [← toNat_unit_of_isDigit hdigit, hunit]
        rfl
      rw [hch, Char.toNat_inj.mp hnat]

theorem unit_digitChar {c : UInt16} (h : isDigit c = true) :
    unit (Nat.digitChar (c.toNat - 0x30)) = c := by
  simp only [isDigit, Bool.and_eq_true, decide_eq_true_eq, UInt16.le_iff_toNat_le,
    UInt16.reduceToNat] at h
  obtain ⟨d, hd, hc⟩ : ∃ d, d < 10 ∧ c.toNat = 0x30 + d := ⟨c.toNat - 0x30, by omega, by omega⟩
  have hval : c = (0x30 + d).toUInt16 := by
    rw [← hc]
    exact UInt16.ofNat_toNat.symm
  rw [hval]
  interval_cases d <;> decide

theorem digitsValue_append_singleton (s : JsString) (c : UInt16) :
    digitsValue (s ++ [c]) = 10 * digitsValue s + (c.toNat - 0x30) := by
  unfold digitsValue
  rw [List.foldl_append]
  rfl

/-- A numeral is written back as it was read. -/
theorem decimal_numeral {s : JsString} (h : IsNumeral s) : decimal (digitsValue s) = s := by
  induction s using List.reverseRecOn with
  | nil => exact absurd rfl h.1
  | append_singleton t c ih =>
    obtain ⟨-, hall, hzero⟩ := h
    rw [List.all_append, Bool.and_eq_true] at hall
    have hc : isDigit c = true := by simpa using hall.2
    have hlt : c.toNat - 0x30 < 10 := by
      simp only [isDigit, Bool.and_eq_true, decide_eq_true_eq, UInt16.le_iff_toNat_le,
        UInt16.reduceToNat] at hc
      omega
    rw [digitsValue_append_singleton]
    rcases t with - | ⟨e, t⟩
    · show decimal (10 * 0 + (c.toNat - 0x30)) = [c]
      rw [Nat.mul_zero, Nat.zero_add, decimal, Nat.toDigits_of_lt_base hlt, List.map_singleton,
        unit_digitChar hc]
    · have hhead : (e :: t).head? ≠ some 0x30 := by
        rcases hzero with heq | hne
        · have hlen := congrArg List.length heq
          rw [List.length_append] at hlen
          exact absurd hlen (by simp [js])
        · exact hne
      have ht := ih ⟨List.cons_ne_nil e t, hall.1, .inr hhead⟩
      have hpos : 0 < digitsValue (e :: t) := by
        rw [Nat.pos_iff_ne_zero]
        intro hv
        rw [hv] at ht
        exact hhead (by rw [← ht]; rfl)
      rw [decimal, ← Nat.toDigits_append_toDigits (by omega) hpos hlt, List.map_append,
        Nat.toDigits_of_lt_base hlt, List.map_singleton, unit_digitChar hc]
      exact congrArg (· ++ [c]) ht

end JsString
