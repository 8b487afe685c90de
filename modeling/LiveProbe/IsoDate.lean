/-
LiveProbe/IsoDate.lean

Timestamps as texts: `Date.prototype.toISOString`, `Date.parse` and the check
of `z.string().datetime({ offset: true })`.

A timestamp is read into a `DateTime`; the reader accepts exactly the texts of
the schema (a date of the Gregorian calendar, hours and minutes, optionally
seconds with a fraction, and `Z` or an offset), so `isDatetime` and
`dateParse` share it.  The calendar is computed by walking over the years from
1970 and over the months of a year; `daysBeforeYear` is the closed form of the
first walk.

Main result: a clock reading before the year 10000 is written as a timestamp
that the schema accepts (`isDatetime_toISOString`).
-/
import LiveProbe.JsString
import Mathlib.Data.List.GetD
import Mathlib.Tactic.Ring

namespace IsoDate

open JsString

/-! ### The calendar -/

def isLeap (y : ℕ) : Bool := y % 4 = 0 && (y % 100 ≠ 0 || y % 400 = 0)

def yearLength (y : ℕ) : ℕ := if isLeap y then 366 else 365

def monthLengths (y : ℕ) : List ℕ :=
  [31, if isLeap y then 29 else 28, 31, 30, 31, 30, 31, 31, 30, 31, 30, 31]

/-- Days from the first of January of the year 0 to that of `y`. -/
def daysBeforeYear (y : ℕ) : ℕ := 365 * y + (y + 3) / 4 - (y + 99) / 100 + (y + 399) / 400

/-- Days from the first of January of `y` to the first of its month `m`. -/
def daysBeforeMonth (y m : ℕ) : ℕ := ((monthLengths y).take (m - 1)).sum

/-- Walk over whole years: the year reached and the days left in it. -/
def walkYears : ℕ → ℕ → ℕ → ℕ × ℕ
  | 0, y, d => (y, d)
  | fuel + 1, y, d => if d < yearLength y then (y, d) else walkYears fuel (y + 1) (d - yearLength y)

/-- Walk over whole months: the month reached and the days left in it. -/
def walkMonths : List ℕ → ℕ → ℕ → ℕ × ℕ
  | [], m, d => (m, d)
  | l :: ls, m, d => if d < l then (m, d) else walkMonths ls (m + 1) (d - l)

theorem daysBeforeYear_succ (y : ℕ) :
    daysBeforeYear (y + 1) = daysBeforeYear y + yearLength y := by
  have hle : (y + 99) / 100 ≤ 365 * y + (y + 3) / 4 := by omega
  have h4 : (y + 1 + 3) / 4 = (y + 3) / 4 + if y % 4 = 0 then 1 else 0 := by split <;> omega
  have h100 : (y + 1 + 99) / 100 = (y + 99) / 100 + if y % 100 = 0 then 1 else 0 := by
    split <;> omega
  have h400 : (y + 1 + 399) / 400 = (y + 399) / 400 + if y % 400 = 0 then 1 else 0 := by
    split <;> omega
  have h₁ : y % 100 = 0 → y % 4 = 0 := by omega
  have h₂ : y % 400 = 0 → y % 100 = 0 := by omega
  unfold daysBeforeYear yearLength isLeap
  rw [h4, h100, h400]
  generalize (y + 3) / 4 = a at *
  generalize (y + 99) / 100 = b at *
  generalize (y + 399) / 400 = c at *
  clear h4 h100 h400
  by_cases c4 : y % 4 = 0
  · by_cases c100 : y % 100 = 0
    · by_cases c400 : y % 400 = 0
      · simp [c4, c100, c400]; omega
      · simp [c4, c100, c400]; omega
    · have c400 : ¬ y % 400 = 0 := fun h => c100 (h₂ h)
      simp [c4, c100, c400]; omega
  · have c100 : ¬ y % 100 = 0 := fun h => c4 (h₁ h)
    have c400 : ¬ y % 400 = 0 := fun h => c100 (h₂ h)
    simp [c4, c100, c400]; omega

theorem walkYears_spec (fuel y d : ℕ) (hd : d < fuel * 365) :
    (walkYears fuel y d).2 < yearLength (walkYears fuel y d).1 ∧
      y ≤ (walkYears fuel y d).1 ∧
      daysBeforeYear (walkYears fuel y d).1 + (walkYears fuel y d).2
        = daysBeforeYear y + d := by
  induction fuel generalizing y d with
  | zero => omega
  | succ fuel ih =>
    rw [walkYears]
    by_cases h : d < yearLength y
    · rw [if_pos h]
      exact ⟨h, le_refl y, rfl⟩
    · rw [if_neg h]
      have hlen : 365 ≤ yearLength y := by unfold yearLength; split <;> omega
      obtain ⟨h₁, h₂, h₃⟩ := ih (y + 1) (d - yearLength y) (by omega)
      refine ⟨h₁, by omega, ?_⟩
      rw [h₃, daysBeforeYear_succ]
      omega

theorem walkMonths_spec (ls : List ℕ) (m d : ℕ) (hd : d < ls.sum) :
    ∃ i, ∃ hi : i < ls.length, walkMonths ls m d = (m + i, d - (ls.take i).sum) ∧
      (ls.take i).sum ≤ d ∧ d - (ls.take i).sum < ls[i] := by
  induction ls generalizing m d with
  | nil => simp at hd
  | cons l ls ih =>
    rw [walkMonths]
    by_cases h : d < l
    · exact ⟨0, by simp, by simp [h], by simp, by simpa using h⟩
    · rw [if_neg h]
      rw [List.sum_cons] at hd
      obtain ⟨i, hi, he, hle, hlt⟩ := ih (m + 1) (d - l) (by omega)
      refine ⟨i + 1, by simpa using hi, ?_, ?_, ?_⟩
      · rw [he, List.take_succ_cons, List.sum_cons]
        exact Prod.ext (by omega) (by omega)
      · rw [List.take_succ_cons, List.sum_cons]
        omega
      · rw [List.take_succ_cons, List.sum_cons, List.getElem_cons_succ]
        omega

theorem sum_monthLengths (y : ℕ) : (monthLengths y).sum = yearLength y := by
  unfold monthLengths yearLength
  split <;> simp

/-! ### Fixed-width numerals -/

def digit (n : ℕ) : UInt16 := (0x30 + n % 10).toUInt16

/-- The last `w` decimal digits of `n`. -/
def pad : ℕ → ℕ → JsString
  | 0, _ => []
  | w + 1, n => pad w (n / 10) ++ [digit n]

/-- Read exactly `w` digits. -/
def readDigits : ℕ → ℕ → JsString → Option (ℕ × JsString)
  | 0, acc, s => some (acc, s)
  | w + 1, acc, c :: s =>
    if isDigit c then readDigits w (10 * acc + (c.toNat - 0x30)) s else none
  | _ + 1, _, [] => none

theorem readDigits_add (a b acc : ℕ) (s : JsString) :
    readDigits (a + b) acc s
      = (readDigits a acc s).bind fun p => readDigits b p.1 p.2 := by
  induction a generalizing acc s with
  | zero => simp [readDigits]
  | succ a ih =>
    rw [Nat.add_right_comm]
    cases s with
    | nil => simp [readDigits]
    | cons c s =>
      simp only [readDigits]
      split
      · exact ih _ s
      · rfl

theorem toNat_digit (n : ℕ) : (digit n).toNat = 0x30 + n % 10 := by
  simp only [digit, Nat.toUInt16, UInt16.toNat_ofNat']
  omega

theorem isDigit_digit (n : ℕ) : isDigit (digit n) = true := by
  have := toNat_digit n
  simp only [isDigit, Bool.and_eq_true, decide_eq_true_eq, UInt16.le_iff_toNat_le, this,
    UInt16.reduceToNat]
  omega

theorem readDigits_pad (w n acc : ℕ) (r : JsString) :
    readDigits w acc (pad w n ++ r) = some (acc * 10 ^ w + n % 10 ^ w, r) := by
  induction w generalizing n acc r with
  | zero => simp [readDigits, pad, Nat.mod_one]
  | succ w ih =>
    rw [readDigits_add w 1, pad, List.append_assoc, ih]
    simp only [Option.bind_some, List.singleton_append, readDigits, isDigit_digit, if_true,
      toNat_digit, Option.some.injEq, Prod.mk.injEq, and_true]
    have : n % 10 ^ (w + 1) = 10 * (n / 10 % 10 ^ w) + n % 10 := by
      rw [pow_succ, Nat.mul_comm (10 ^ w) 10, Nat.mod_mul]
      omega
    rw [this, pow_succ]
    have e : 10 * (acc * 10 ^ w + n / 10 % 10 ^ w)
        = acc * (10 ^ w * 10) + 10 * (n / 10 % 10 ^ w) := by ring
    omega

/-- Reading back a numeral that fits its width. -/
theorem readDigits_pad_of_lt {w n : ℕ} (h : n < 10 ^ w) (r : JsString) :
    readDigits w 0 (pad w n ++ r) = some (n, r) := by
  rw [readDigits_pad, Nat.mod_eq_of_lt h]
  simp

/-! ### Writing -/

/-- The calendar day of a number of days since the epoch. -/
def civil (days : ℕ) : ℕ × ℕ × ℕ :=
  let (y, d) := walkYears (days / 365 + 1) 1970 days
  let (m, d) := walkMonths (monthLengths y) 1 d
  (y, m, d + 1)

/-- `new Date(t).toISOString()`, `t` in milliseconds since the epoch; from the
year 10000 on the year is written with a sign and six digits. -/
def toISOString (t : ℕ) : JsString :=
  let (y, m, d) := civil (t / 86400000)
  (if y < 10000 then pad 4 y else 0x2B :: pad 6 y) ++
    0x2D :: pad 2 m ++ 0x2D :: pad 2 d ++
    0x54 :: pad 2 (t / 3600000 % 24) ++ 0x3A :: pad 2 (t / 60000 % 60) ++
    0x3A :: pad 2 (t / 1000 % 60) ++ 0x2E :: pad 3 (t % 1000) ++ [0x5A]

/-! ### Reading -/

/-- A timestamp as it is written: the fraction of the second by its digits, the
offset from UTC in minutes. -/
structure DateTime where
  year : ℕ
  month : ℕ
  day : ℕ
  hour : ℕ
  minute : ℕ
  second : ℕ
  fraction : JsString
  offset : ℤ
  deriving DecidableEq

/-- Read one given unit. -/
def readUnit (c : UInt16) : JsString → Option JsString
  | c' :: s => if c' = c then some s else none
  | [] => none

/-- Read a fraction of a second, if there is one: a point and at least one digit. -/
def readFraction : JsString → Option (JsString × JsString)
  | 0x2E :: s =>
    if s.takeWhile isDigit = [] then none
    else some (s.takeWhile isDigit, s.dropWhile isDigit)
  | s => some ([], s)

/-- Read seconds and their fraction, if there are any. -/
def readSeconds : JsString → Option (ℕ × JsString × JsString)
  | 0x3A :: s => do
    let (sec, s) ← readDigits 2 0 s
    let (frac, s) ← readFraction s
    some (sec, frac, s)
  | s => some (0, [], s)

/-- Read `Z` or an offset, to the end of the text. -/
def readOffset : JsString → Option ℤ
  | [0x5A] => some 0
  | c :: s => do
    let (h, s) ← readDigits 2 0 s
    let s ← readUnit 0x3A s
    let (m, s) ← readDigits 2 0 s
    if s = [] ∧ h < 24 ∧ m < 60 then
      if c = 0x2B then some (h * 60 + m) else if c = 0x2D then some (-(h * 60 + m)) else none
    else none
  | [] => none

/-- Whether the fields are in range for the calendar and the clock. -/
def DateTime.inRange (t : DateTime) : Bool :=
  1 ≤ t.month && t.month ≤ 12 && 1 ≤ t.day && t.day ≤ (monthLengths t.year).getD (t.month - 1) 0 &&
    t.hour < 24 && t.minute < 60 && t.second < 60

/-- Read what follows the year of a timestamp. -/
def readSinceYear (year : ℕ) (s : JsString) : Option DateTime := do
  let s ← readUnit 0x2D s
  let (month, s) ← readDigits 2 0 s
  let s ← readUnit 0x2D s
  let (day, s) ← readDigits 2 0 s
  let s ← readUnit 0x54 s
  let (hour, s) ← readDigits 2 0 s
  let s ← readUnit 0x3A s
  let (minute, s) ← readDigits 2 0 s
  let (second, fraction, s) ← readSeconds s
  let offset ← readOffset s
  let t : DateTime := { year, month, day, hour, minute, second, fraction, offset }
  if t.inRange then some t else none

/-- Read a timestamp of `z.string().datetime({ offset: true })`. -/
def readDateTime (s : JsString) : Option DateTime := do
  let (year, s) ← readDigits 4 0 s
  readSinceYear year s

/-- Read a timestamp whose year has a sign and six digits. -/
def readExpanded : JsString → Option DateTime
  | 0x2B :: s => do
    let (year, s) ← readDigits 6 0 s
    readSinceYear year s
  | _ => none

/-- `z.string().datetime({ offset: true })`. -/
def isDatetime (s : JsString) : Bool := (readDateTime s).isSome

/-- The milliseconds of a fraction: its first three digits. -/
def fractionMillis (f : JsString) : ℕ :=
  ((f ++ [0x30, 0x30, 0x30]).take 3).foldl (fun n (c : UInt16) => 10 * n + (c.toNat - 0x30)) 0

/-- Milliseconds since the epoch. -/
def DateTime.millis (t : DateTime) : ℤ :=
  ((daysBeforeYear t.year + daysBeforeMonth t.year t.month + (t.day - 1) : ℕ)
      - daysBeforeYear 1970 : ℤ) * 86400000
    + ((t.hour * 3600000 + t.minute * 60000 + t.second * 1000 + fractionMillis t.fraction : ℕ) : ℤ)
    - t.offset * 60000

/-- `Date.parse` on the timestamps the schemas accept and those `toISOString` writes. -/
def dateParse (s : JsString) : Option ℤ := ((readDateTime s).or (readExpanded s)).map DateTime.millis

/-! ### Round trip -/

/-- The first instant whose year has five digits. -/
def year10000 : ℕ := 253402300800000

/-- The last instant of a `Date`; `toISOString` throws beyond it. -/
def maxTime : ℕ := 8640000000000000

/-- What the walks of `civil` reach: a day of the calendar, `days` after the epoch. -/
theorem civil_spec (days : ℕ) :
    ∃ y m d, civil days = (y, m, d) ∧ 1 ≤ m ∧ m ≤ 12 ∧ 1 ≤ d ∧
      d ≤ (monthLengths y).getD (m - 1) 0 ∧
      daysBeforeYear y + daysBeforeMonth y m + (d - 1) = daysBeforeYear 1970 + days := by
  obtain ⟨hlt, -, hsum⟩ := walkYears_spec (days / 365 + 1) 1970 days (by omega)
  rcases hw : walkYears (days / 365 + 1) 1970 days with ⟨y, r⟩
  rw [hw] at hlt hsum
  obtain ⟨i, hi, hm, hle, hday⟩ :=
    walkMonths_spec (monthLengths y) 1 r (by rw [sum_monthLengths]; exact hlt)
  have h12 : i < 12 := by simpa [monthLengths] using hi
  refine ⟨y, 1 + i, r - ((monthLengths y).take i).sum + 1, ?_, by omega, by omega, by omega,
    ?_, ?_⟩
  · simp only [civil, hw, hm]
  · rw [show 1 + i - 1 = i by omega, List.getD_eq_getElem _ _ hi]
    omega
  · rw [daysBeforeMonth, show 1 + i - 1 = i by omega]
    simp only at hsum hle
    omega

theorem civil_year_lt {days : ℕ} (h : days < 2932897) : (civil days).1 < 10000 := by
  obtain ⟨y, m, d, he, -, -, -, -, hsum⟩ := civil_spec days
  rw [he]
  by_contra hy
  simp only [not_lt] at hy
  have h1970 : daysBeforeYear 1970 = 719528 := by decide
  have hge : 3652425 ≤ daysBeforeYear y := by unfold daysBeforeYear; omega
  omega

theorem civil_year_lt_expanded {days : ℕ} (h : days ≤ 100000000) : (civil days).1 < 1000000 := by
  obtain ⟨y, m, d, he, -, -, -, -, hsum⟩ := civil_spec days
  rw [he]
  by_contra hy
  simp only [not_lt] at hy
  have h1970 : daysBeforeYear 1970 = 719528 := by decide
  have hge : 365000000 ≤ daysBeforeYear y := by unfold daysBeforeYear; omega
  omega

theorem monthLengths_le (y m : ℕ) : (monthLengths y).getD m 0 ≤ 31 := by
  have hall : ∀ l ∈ monthLengths y, l ≤ 31 := by
    intro l hl
    simp only [monthLengths, List.mem_cons, List.not_mem_nil, or_false] at hl
    split at hl <;> omega
  by_cases hm : m < (monthLengths y).length
  · rw [List.getD_eq_getElem _ _ hm]
    exact hall _ (List.getElem_mem hm)
  · rw [List.getD_eq_default _ _ (not_lt.mp hm)]
    omega

theorem takeWhile_isDigit_pad (w n : ℕ) {c : UInt16} (hc : isDigit c = false) (r : JsString) :
    (pad w n ++ c :: r).takeWhile isDigit = pad w n ∧
      (pad w n ++ c :: r).dropWhile isDigit = c :: r := by
  have hall : ∀ x ∈ pad w n, isDigit x = true := by
    induction w generalizing n with
    | zero => simp [pad]
    | succ w ih =>
      intro x hx
      rcases List.mem_append.mp hx with hx | hx
      · exact ih _ x hx
      · rw [List.mem_singleton.mp hx]
        exact isDigit_digit n
  rw [List.takeWhile_append_of_pos hall, List.dropWhile_append_of_pos hall]
  simp [hc]

theorem fractionMillis_pad {n : ℕ} (h : n < 1000) : fractionMillis (pad 3 n) = n := by
  have : (pad 3 n ++ [0x30, 0x30, 0x30]).take 3 = pad 3 n := by
    simp [pad]
  rw [fractionMillis, this]
  simp only [pad, List.nil_append, List.cons_append, List.foldl_cons, List.foldl_nil, toNat_digit]
  omega

/-- What follows the year is read back. -/
theorem readSinceYear_toISOString {t y m d : ℕ} (hm₁ : 1 ≤ m) (hm₂ : m ≤ 12) (hd₁ : 1 ≤ d) (hd₂ : d ≤ (monthLengths y).getD (m - 1) 0) :
    readSinceYear y (0x2D :: (pad 2 m ++ 0x2D :: (pad 2 d ++ 0x54 :: (pad 2 (t / 3600000 % 24) ++
      0x3A :: (pad 2 (t / 60000 % 60) ++ 0x3A :: (pad 2 (t / 1000 % 60) ++
        0x2E :: (pad 3 (t % 1000) ++ [0x5A]))))))) =
      some { year := y, month := m, day := d, hour := t / 3600000 % 24, minute := t / 60000 % 60
             second := t / 1000 % 60, fraction := pad 3 (t % 1000), offset := 0 } := by
  have hd31 := monthLengths_le y (m - 1)
  have hfrac := takeWhile_isDigit_pad 3 (t % 1000) (c := 0x5A) (by decide) []
  have hne : pad 3 (t % 1000) ≠ [] := by simp [pad]
  simp only [readSinceYear, Option.bind_eq_bind, readUnit, if_true, Option.bind_some]
  rw [readDigits_pad_of_lt (by omega)]
  simp only [Option.bind_some, if_true]
  rw [readDigits_pad_of_lt (by omega)]
  simp only [Option.bind_some, if_true]
  rw [readDigits_pad_of_lt (by omega)]
  simp only [Option.bind_some, if_true]
  rw [readDigits_pad_of_lt (by omega)]
  simp only [Option.bind_some, readSeconds, Option.bind_eq_bind]
  rw [readDigits_pad_of_lt (by omega)]
  simp only [Option.bind_some, readFraction, hfrac, if_neg hne, readOffset]
  rw [if_pos]
  simp only [DateTime.inRange, Bool.and_eq_true, decide_eq_true_eq]
  omega

/-- The day and the time of the day make up the instant. -/
theorem millis_toISOString {t y m d : ℕ}
    (hsum : daysBeforeYear y + daysBeforeMonth y m + (d - 1) = daysBeforeYear 1970 + t / 86400000) :
    DateTime.millis
      { year := y, month := m, day := d, hour := t / 3600000 % 24, minute := t / 60000 % 60
        second := t / 1000 % 60, fraction := pad 3 (t % 1000), offset := 0 } = t := by
  rw [DateTime.millis, fractionMillis_pad (by omega), hsum]
  push_cast
  omega

theorem readDateTime_toISOString {t : ℕ} (hy : (civil (t / 86400000)).1 < 10000) :
    ∃ dt, readDateTime (toISOString t) = some dt ∧ dt.millis = t := by
  obtain ⟨y, m, d, he, hm₁, hm₂, hd₁, hd₂, hsum⟩ := civil_spec (t / 86400000)
  rw [he] at hy
  refine ⟨_, ?_, millis_toISOString hsum⟩
  simp only [toISOString, he, if_pos hy, readDateTime, List.append_assoc, List.cons_append]
  rw [readDigits_pad_of_lt hy]
  exact readSinceYear_toISOString hm₁ hm₂ hd₁ hd₂

/-- So is every other instant of a `Date`. -/
theorem dateParse_toISOString_of_le {t : ℕ} (h : t ≤ maxTime) :
    dateParse (toISOString t) = some (t : ℤ) := by
  by_cases hsmall : (civil (t / 86400000)).1 < 10000
  · obtain ⟨dt, hdt, hmillis⟩ := readDateTime_toISOString hsmall
    rw [dateParse, hdt, Option.some_or, Option.map_some, hmillis]
  have hy := civil_year_lt_expanded (show t / 86400000 ≤ 100000000 by unfold maxTime at h; omega)
  obtain ⟨y, m, d, he, hm₁, hm₂, hd₁, hd₂, hsum⟩ := civil_spec (t / 86400000)
  rw [he] at hy hsmall
  have hnone : readDateTime (toISOString t) = none := by
    simp only [toISOString, he, if_neg hsmall, List.cons_append]
    rfl
  have hread : readExpanded (toISOString t) = some
      { year := y, month := m, day := d, hour := t / 3600000 % 24, minute := t / 60000 % 60
        second := t / 1000 % 60, fraction := pad 3 (t % 1000), offset := 0 } := by
    simp only [toISOString, he, if_neg hsmall, readExpanded, List.append_assoc, List.cons_append]
    rw [readDigits_pad_of_lt hy]
    exact readSinceYear_toISOString hm₁ hm₂ hd₁ hd₂
  rw [dateParse, hnone, Option.none_or, hread, Option.map_some, millis_toISOString hsum]

/-- Such a text is a timestamp for the schemas. -/
theorem isDatetime_toISOString {t : ℕ} (h : t < year10000) :
    isDatetime (toISOString t) = true := by
  have hyear := civil_year_lt (show t / 86400000 < 2932897 by unfold year10000 at h; omega)
  obtain ⟨dt, hdt, -⟩ := readDateTime_toISOString hyear
  rw [isDatetime, hdt]
  rfl

/-- The timestamps of the schemas are read. -/
theorem isSome_dateParse_of_isDatetime {s : JsString} (h : isDatetime s = true) : (dateParse s).isSome = true := by
  obtain ⟨dt, hdt⟩ := Option.isSome_iff_exists.mp h
  rw [dateParse, hdt]
  rfl

end IsoDate
