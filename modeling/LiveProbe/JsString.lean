/-
LiveProbe/JsString.lean

ECMAScript strings: sequences of UTF-16 code units.  `length` is `List.length`,
comparison is comparison of code units, and a string may hold a NUL or a lone
surrogate like any other unit.

Besides `trim` and `toLowerCase` the file has what composite keys are made of:
`decimal`, `quote` (the string case of `JSON.stringify`) and the reading of a
text up to the first NUL.  The two facts used later are that a quoted text
holds no NUL (`nul_notMem_quote`) and that a key whose first part holds no NUL
determines its parts (`append_nul_inj`).
-/
import Mathlib.Data.List.DropRight
import Mathlib.Data.List.Infix
import Mathlib.Tactic.IntervalCases

/-- A string of UTF-16 code units. -/
abbrev JsString := List UInt16

/-- Two strings are compared unit by unit. -/
instance : LawfulBEq JsString := inferInstance

namespace JsString

/-- The code units of a literal from the basic multilingual plane. -/
def js (s : String) : JsString := s.toList.map fun c => c.toNat.toUInt16

/-- The separator of composite keys, `"\u0000"`. -/
def nul : UInt16 := 0

/-! ### Trimming and case -/

/-- White space and line terminators, as `String.prototype.trim` knows them. -/
def isSpace (c : UInt16) : Bool :=
  (0x09 ≤ c && c ≤ 0x0D) || c = 0x20 || c = 0xA0 || c = 0x1680 ||
    (0x2000 ≤ c && c ≤ 0x200A) || c = 0x2028 || c = 0x2029 || c = 0x202F ||
    c = 0x205F || c = 0x3000 || c = 0xFEFF

/-- `String.prototype.trim`. -/
def trim (s : JsString) : JsString := (s.dropWhile isSpace).rdropWhile isSpace

/-- `String.prototype.toLowerCase` on the ASCII letters, the only ones the
schemas let through where it is called. -/
def toLowerCase (s : JsString) : JsString :=
  s.map fun c => if 0x41 ≤ c && c ≤ 0x5A then c + 0x20 else c

/-- Dropping from the right leaves the left end as it was. -/
theorem dropWhile_rdropWhile (p : UInt16 → Bool) (s : JsString) :
    ((s.dropWhile p).rdropWhile p).dropWhile p = (s.dropWhile p).rdropWhile p := by
  rcases h : s.dropWhile p with - | ⟨c, t⟩
  · simp
  have hc : ¬ p c := by
    have := List.head?_dropWhile_not p s
    simpa [h] using this
  obtain ⟨u, hu⟩ := List.rdropWhile_prefix p (c :: t)
  rcases hr : (c :: t).rdropWhile p with - | ⟨c', t'⟩
  · simp
  · rw [hr, List.cons_append] at hu
    obtain rfl : c' = c := (List.cons.inj hu).1
    rw [List.dropWhile_cons_of_neg hc]

@[simp] theorem trim_trim (s : JsString) : trim (trim s) = trim s := by
  unfold trim
  rw [dropWhile_rdropWhile, List.rdropWhile_idempotent]

/-- A text without white space is its own trimming. -/
theorem trim_eq_self {s : JsString} (h : ∀ c ∈ s, isSpace c = false) : trim s = s := by
  have hl : s.dropWhile isSpace = s := by
    cases s with
    | nil => rfl
    | cons c t => rw [List.dropWhile_cons_of_neg (by simp [h c])]
  rw [trim, hl, List.rdropWhile_eq_self_iff]
  exact fun hne => by simp [h _ (List.getLast_mem hne)]

theorem isInfix_trim (s : JsString) : trim s <:+: s :=
  (List.rdropWhile_prefix _ _).isInfix.trans (List.dropWhile_suffix _).isInfix

/-- Trimming does not lengthen. -/
theorem length_trim_le (s : JsString) : (trim s).length ≤ s.length :=
  (isInfix_trim s).length_le

@[simp] theorem toLowerCase_toLowerCase (s : JsString) :
    toLowerCase (toLowerCase s) = toLowerCase s := by
  unfold toLowerCase
  rw [List.map_map]
  refine List.map_congr_left fun c _ => ?_
  simp only [Function.comp_apply]
  by_cases h : (0x41 ≤ c && c ≤ 0x5A) = true
  · rw [if_pos h, if_neg]
    simp only [Bool.and_eq_true, decide_eq_true_eq] at h ⊢
    rw [UInt16.le_iff_toNat_le, UInt16.le_iff_toNat_le] at h
    rw [UInt16.le_iff_toNat_le, UInt16.le_iff_toNat_le, UInt16.toNat_add]
    simp only [UInt16.reduceToNat] at h ⊢
    omega
  · rw [if_neg h, if_neg h]

/-! ### Decimal numerals -/

/-- The code unit of an ASCII character. -/
def unit (c : Char) : UInt16 := c.toNat.toUInt16

/-- `String(n)` for a natural number. -/
def decimal (n : ℕ) : JsString := (Nat.toDigits 10 n).map unit

def isDigit (c : UInt16) : Bool := 0x30 ≤ c && c ≤ 0x39

/-- `Number(text)` for a text of decimal digits; other texts are not numerals. -/
def readDecimal (s : JsString) : Option ℕ :=
  if s ≠ [] ∧ s.all isDigit then
    some (s.foldl (fun n c => 10 * n + (c.toNat - 0x30)) 0)
  else none

theorem toNat_unit_of_isDigit {c : Char} (h : c.isDigit = true) : (unit c).toNat = c.toNat := by
  have hc : c.toNat ≤ 57 := by
    simp only [Char.isDigit, Bool.and_eq_true, decide_eq_true_eq] at h
    exact UInt32.le_iff_toNat_le.mp h.2
  simp only [unit, UInt16.toNat_ofNat', Nat.toUInt16]
  omega

theorem isDigit_of_mem_decimal {n : ℕ} {c : UInt16} (h : c ∈ decimal n) : isDigit c = true := by
  obtain ⟨d, hd, rfl⟩ := List.mem_map.mp h
  have hd' := Nat.isDigit_of_mem_toDigits (by omega) (by omega) hd
  have hn := toNat_unit_of_isDigit hd'
  simp only [Char.isDigit, Bool.and_eq_true, decide_eq_true_eq] at hd'
  have h1 := UInt32.le_iff_toNat_le.mp hd'.1
  have h2 := UInt32.le_iff_toNat_le.mp hd'.2
  simp only [isDigit, Bool.and_eq_true, decide_eq_true_eq, UInt16.le_iff_toNat_le, hn]
  exact ⟨h1, h2⟩

@[simp] theorem readDecimal_decimal (n : ℕ) : readDecimal (decimal n) = some n := by
  have hne : decimal n ≠ [] := by
    simp [decimal, Nat.toDigits_ne_nil]
  have hall : (decimal n).all isDigit = true :=
    List.all_eq_true.mpr fun c hc => isDigit_of_mem_decimal hc
  rw [readDecimal, if_pos ⟨hne, hall⟩]
  conv_rhs => rw [← Nat.ofDigitChars_ten_toDigits (n := n)]
  rw [decimal, List.foldl_map, Nat.ofDigitChars]
  congr 1
  refine List.foldl_ext _ _ _ fun a c hc => ?_
  rw [toNat_unit_of_isDigit (Nat.isDigit_of_mem_toDigits (by omega) (by omega) hc)]
  rfl

theorem decimal_injective : Function.Injective decimal := fun m n h => by
  have := congrArg readDecimal h
  simpa using this

theorem nul_notMem_decimal (n : ℕ) : nul ∉ decimal n := fun h => by
  have := isDigit_of_mem_decimal h
  simp [isDigit, nul] at this

/-! ### Composite keys -/

/-- A first part without a NUL ends at the first NUL. -/
theorem append_nul_inj {a a' r r' : JsString} (ha : nul ∉ a) (ha' : nul ∉ a')
    (h : a ++ nul :: r = a' ++ nul :: r') : a = a' ∧ r = r' := by
  induction a generalizing a' with
  | nil =>
    cases a' with
    | nil => exact ⟨rfl, (List.cons.inj h).2⟩
    | cons c t =>
      obtain rfl : nul = c := (List.cons.inj h).1
      simp at ha'
  | cons c t ih =>
    cases a' with
    | nil =>
      obtain rfl : c = nul := (List.cons.inj h).1
      simp at ha
    | cons c' t' =>
      obtain ⟨rfl, ht⟩ := List.cons.inj h
      obtain ⟨rfl, hr⟩ := ih (fun hm => ha (List.mem_cons_of_mem _ hm))
        (fun hm => ha' (List.mem_cons_of_mem _ hm)) ht
      exact ⟨rfl, hr⟩

/-- A last part without a NUL starts after the last NUL. -/
theorem append_nul_inj_right {a a' r r' : JsString} (hr : nul ∉ r) (hr' : nul ∉ r')
    (h : a ++ nul :: r = a' ++ nul :: r') : a = a' ∧ r = r' := by
  have h' := congrArg List.reverse h
  simp only [List.reverse_append, List.reverse_cons, List.append_assoc, List.singleton_append]
    at h'
  obtain ⟨h₁, h₂⟩ := append_nul_inj (by simpa using hr) (by simpa using hr') h'
  exact ⟨List.reverse_injective h₂, List.reverse_injective h₁⟩

/-- `text.split("\u0000")`. -/
def splitNul (s : JsString) : List JsString := s.splitOn nul

/-- A part without a NUL is split off whole. -/
theorem splitNul_append {a r : JsString} (h : nul ∉ a) :
    splitNul (a ++ nul :: r) = a :: splitNul r :=
  List.splitOn_append_cons_self_of_not_mem h _

theorem splitNul_of_notMem {a : JsString} (h : nul ∉ a) : splitNul a = [a] :=
  List.splitOn_eq_singleton h

/-- No part holds a NUL. -/
theorem nul_notMem_of_mem_splitNul {s a : JsString} (h : a ∈ splitNul s) : nul ∉ a := by
  induction s generalizing a with
  | nil =>
    simp only [splitNul, List.splitOn_nil, List.mem_singleton] at h
    simp [h]
  | cons c s ih =>
    rw [splitNul, List.splitOn_cons_eq_if_modifyHead] at h
    split at h
    · rcases List.mem_cons.mp h with rfl | h
      · simp
      · exact ih h
    · next hc =>
      rcases hs : s.splitOn nul with - | ⟨p, ps⟩
      · simp [hs] at h
      · rw [hs, List.modifyHead_cons] at h
        rcases List.mem_cons.mp h with rfl | h
        · have := ih (a := p) (by rw [splitNul, hs]; exact List.mem_cons_self)
          simp only [beq_iff_eq] at hc
          simp [this, Ne.symm hc]
        · exact ih (by rw [splitNul, hs]; exact List.mem_cons_of_mem _ h)

/-! ### Quoting

`JSON.stringify` of a string: quotation mark, backslash and control units are
escaped, and so is a surrogate that has no partner.  The text is read back by
`unquote`, so a quoted string followed by more text determines both. -/

/-- The digit of a hexadecimal value below sixteen, in lower case. -/
def hexDigit (n : ℕ) : UInt16 := (if n < 10 then 0x30 + n else 0x57 + n).toUInt16

/-- The value of a lower-case hexadecimal digit. -/
def hexValue (c : UInt16) : ℕ := if c ≤ 0x39 then c.toNat - 0x30 else c.toNat - 0x57

/-- `\uXXXX`. -/
def unicodeEscape (c : UInt16) : JsString :=
  [0x5C, 0x75, hexDigit (c.toNat / 4096), hexDigit (c.toNat / 256 % 16),
    hexDigit (c.toNat / 16 % 16), hexDigit (c.toNat % 16)]

def isHighSurrogate (c : UInt16) : Bool := 0xD800 ≤ c && c ≤ 0xDBFF
def isLowSurrogate (c : UInt16) : Bool := 0xDC00 ≤ c && c ≤ 0xDFFF

/-- The second unit of the two-unit escapes. -/
def shortEscape (c : UInt16) : Option UInt16 :=
  if c = 0x22 then some 0x22 else if c = 0x5C then some 0x5C
  else if c = 0x08 then some 0x62 else if c = 0x0C then some 0x66
  else if c = 0x0A then some 0x6E else if c = 0x0D then some 0x72
  else if c = 0x09 then some 0x74 else none

/-- The escape of a unit that is not part of a surrogate pair. -/
def escapeUnit (c : UInt16) : JsString :=
  match shortEscape c with
  | some e => [0x5C, e]
  | none =>
    if c < 0x20 || isHighSurrogate c || isLowSurrogate c then unicodeEscape c else [c]

def escape : JsString → JsString
  | [] => []
  | [c] => escapeUnit c
  | c :: d :: t =>
    if isHighSurrogate c && isLowSurrogate d then c :: d :: escape t
    else escapeUnit c ++ escape (d :: t)

/-- `JSON.stringify` of a string. -/
def quote (s : JsString) : JsString := 0x22 :: (escape s ++ [0x22])

/-- The unit a two-unit escape stands for. -/
def unescapeShort (e : UInt16) : UInt16 :=
  if e = 0x62 then 0x08 else if e = 0x66 then 0x0C else if e = 0x6E then 0x0A
  else if e = 0x72 then 0x0D else if e = 0x74 then 0x09 else e

/-- Read an escaped text up to its closing quotation mark. -/
def unquote : JsString → Option (JsString × JsString)
  | [] => none
  | 0x22 :: r => some ([], r)
  | 0x5C :: 0x75 :: a :: b :: c :: d :: r =>
    let u := (hexValue a * 4096 + hexValue b * 256 + hexValue c * 16 + hexValue d).toUInt16
    (unquote r).map fun p => (u :: p.1, p.2)
  | 0x5C :: e :: r => (unquote r).map fun p => (unescapeShort e :: p.1, p.2)
  | c :: r => (unquote r).map fun p => (c :: p.1, p.2)

theorem hexValue_hexDigit {n : ℕ} (h : n < 16) : hexValue (hexDigit n) = n := by
  interval_cases n <;> rfl

theorem unquote_unicodeEscape (c : UInt16) (w : JsString) :
    unquote (unicodeEscape c ++ w) = (unquote w).map fun p => (c :: p.1, p.2) := by
  have hc := c.toNat_lt
  simp only [unicodeEscape, List.cons_append, List.nil_append, unquote]
  rw [hexValue_hexDigit (by omega), hexValue_hexDigit (by omega), hexValue_hexDigit (by omega),
    hexValue_hexDigit (by omega)]
  have : (c.toNat / 4096 * 4096 + c.toNat / 256 % 16 * 256 + c.toNat / 16 % 16 * 16
      + c.toNat % 16) = c.toNat := by omega
  rw [this]
  simp [Nat.toUInt16]

/-- A unit that is neither quotation mark nor backslash stands for itself. -/
theorem unquote_cons {c : UInt16} (h₁ : c ≠ 0x22) (h₂ : c ≠ 0x5C) (w : JsString) :
    unquote (c :: w) = (unquote w).map fun p => (c :: p.1, p.2) := by
  rw [unquote]
  · exact h₁
  · exact fun _ _ _ _ _ h => absurd h h₂
  · exact fun _ _ h => absurd h h₂

theorem unquote_escapeUnit (c : UInt16) (w : JsString) :
    unquote (escapeUnit c ++ w) = (unquote w).map fun p => (c :: p.1, p.2) := by
  unfold escapeUnit
  split
  · next e he =>
    unfold shortEscape at he
    split_ifs at he <;> subst_vars <;> cases he <;> rfl
  · next he =>
    split
    · exact unquote_unicodeEscape c w
    · refine unquote_cons ?_ ?_ w <;> rintro rfl <;> simp [shortEscape] at he

/-- A surrogate stands for itself when it is read. -/
theorem unquote_surrogate {c : UInt16} (h : isHighSurrogate c || isLowSurrogate c)
    (w : JsString) : unquote (c :: w) = (unquote w).map fun p => (c :: p.1, p.2) := by
  refine unquote_cons ?_ ?_ w <;> rintro rfl <;> simp [isHighSurrogate, isLowSurrogate] at h

theorem unquote_escape (s r : JsString) : unquote (escape s ++ 0x22 :: r) = some (s, r) := by
  fun_induction escape s with
  | case1 => simp [unquote]
  | case2 c => rw [unquote_escapeUnit]; simp [unquote]
  | case3 c d t h ih =>
    simp only [Bool.and_eq_true] at h
    rw [List.cons_append, List.cons_append, unquote_surrogate (by simp [h.1]),
      unquote_surrogate (by simp [h.2]), ih]
    rfl
  | case4 c d t h ih =>
    rw [List.append_assoc, unquote_escapeUnit, ih]
    rfl

/-- A quoted string followed by a text determines both. -/
theorem quote_append_inj {s s' r r' : JsString} (h : quote s ++ r = quote s' ++ r') :
    s = s' ∧ r = r' := by
  have h' : (escape s ++ [0x22]) ++ r = (escape s' ++ [0x22]) ++ r' := (List.cons.inj h).2
  rw [List.append_assoc, List.append_assoc] at h'
  have := congrArg unquote h'
  simp only [List.singleton_append, unquote_escape, Option.some.injEq, Prod.mk.injEq] at this
  exact this

theorem nul_notMem_escapeUnit (c : UInt16) : nul ∉ escapeUnit c := by
  have hd : ∀ n, n < 16 → nul ≠ hexDigit n := by
    intro n hn
    interval_cases n <;> decide
  have hc := c.toNat_lt
  unfold escapeUnit
  split
  · next e he =>
    unfold shortEscape at he
    split_ifs at he <;> cases he <;> simp [nul]
  · split
    · simp only [unicodeEscape, List.mem_cons, List.not_mem_nil, or_false, not_or]
      exact ⟨by decide, by decide, hd _ (by omega), hd _ (by omega), hd _ (by omega),
        hd _ (by omega)⟩
    · next h =>
      rw [List.mem_singleton]
      rintro rfl
      simp [nul] at h

theorem nul_notMem_escape (s : JsString) : nul ∉ escape s := by
  fun_induction escape s with
  | case1 => simp
  | case2 c => exact nul_notMem_escapeUnit c
  | case3 c d t h ih =>
    simp only [List.mem_cons, not_or]
    refine ⟨?_, ?_, ih⟩ <;> rintro rfl <;> simp [nul, isHighSurrogate, isLowSurrogate] at h
  | case4 c d t h ih =>
    rw [List.mem_append, not_or]
    exact ⟨nul_notMem_escapeUnit c, ih⟩

/-- A quoted string holds no NUL. -/
theorem nul_notMem_quote (s : JsString) : nul ∉ quote s := by
  simp only [quote, List.mem_cons, List.mem_append, List.not_mem_nil, or_false, not_or]
  exact ⟨by decide, nul_notMem_escape s, by decide⟩

end JsString
