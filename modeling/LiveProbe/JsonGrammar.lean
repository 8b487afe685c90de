/-
LiveProbe/JsonGrammar.lean

The grammar of JSON texts, over UTF-16 code units, and the values it assigns.

`Value s v r` says that `s` begins with a value, `v`, and goes on with `r`.  The
digits are a parameter, so that the grammar can be read with another notion of
what a digit is; `ascii` is the one of RFC 8259.  How large an exponent and how
long a fraction may be is a parameter too, and the names of an object are
distinct.

The grammar is monotone in its parameters (`Text.mono`).
-/
import LiveProbe.Json
import Mathlib.Algebra.Order.Field.Rat
import Mathlib.Data.List.Nodup
import Mathlib.Tactic.Ring

open JsString

namespace JsonGrammar

/-! ### Digits -/

/-- What the grammar takes for digits, and the numbers it admits: by the digits after the point and the exponent. -/
structure Dialect where
  decimal : UInt16 → Option ℕ
  hex : UInt16 → Option ℕ
  Fits : ℕ → ℤ → Prop
  zero : decimal (unit '0') = some 0

/-- The value of an ASCII digit. -/
def asciiDigit (c : UInt16) : Option ℕ := if 0x30 ≤ c ∧ c ≤ 0x39 then some (c.toNat - 0x30) else none

/-- The value of a hexadecimal ASCII digit, of either case. -/
def asciiHex (c : UInt16) : Option ℕ :=
  if 0x30 ≤ c ∧ c ≤ 0x39 then some (c.toNat - 0x30)
  else if 0x41 ≤ c ∧ c ≤ 0x46 then some (c.toNat - 0x37)
  else if 0x61 ≤ c ∧ c ≤ 0x66 then some (c.toNat - 0x57)
  else none

/-- The digits of RFC 8259. -/
def ascii (Fits : ℕ → ℤ → Prop) : Dialect := ⟨asciiDigit, asciiHex, Fits, rfl⟩

/-- The number that a text of digits stands for. -/
def numeral (digit : UInt16 → Option ℕ) (t : JsString) : ℕ := t.foldl (fun n c => 10 * n + (digit c).getD 0) 0

theorem numeral_append_replicate {digit : UInt16 → Option ℕ} {z : UInt16} (hz : digit z = some 0) (t : JsString) (k : ℕ) :
    numeral digit (t ++ List.replicate k z) = numeral digit t * 10 ^ k := by
  induction k with
  | zero => rw [List.replicate_zero, List.append_nil, pow_zero, mul_one]
  | succ k ih =>
    rw [List.replicate_succ', ← List.append_assoc, numeral, List.foldl_append]
    show 10 * numeral digit (t ++ List.replicate k z) + (digit z).getD 0 = _
    rw [ih, hz, pow_succ, Option.getD_some]
    ring

theorem numeral_replicate_append {digit : UInt16 → Option ℕ} {z : UInt16} (hz : digit z = some 0) (t : JsString) (k : ℕ) :
    numeral digit (List.replicate k z ++ t) = numeral digit t := by
  induction k with
  | zero => rfl
  | succ k ih =>
    rw [List.replicate_succ, List.cons_append, numeral, List.foldl_cons, hz]
    exact ih

/-- A text of digits, one at least. -/
def IsDigits (digit : UInt16 → Option ℕ) (t : JsString) : Prop := t ≠ [] ∧ ∀ c ∈ t, (digit c).isSome = true

/-! ### Numbers -/

/-- `exp` -/
structure Exponent where
  marker : UInt16
  sign : Option UInt16
  digits : JsString

/-- `number` -/
structure Numeral where
  minus : Bool
  int : JsString
  frac : Option JsString
  exp : Option Exponent

namespace Exponent

def text (x : Exponent) : JsString := x.marker :: (x.sign.toList ++ x.digits)

structure WellFormed (digit : UInt16 → Option ℕ) (x : Exponent) : Prop where
  marker : x.marker = unit 'e' ∨ x.marker = unit 'E'
  sign : ∀ c, x.sign = some c → c = unit '+' ∨ c = unit '-'
  digits : IsDigits digit x.digits

def value (digit : UInt16 → Option ℕ) (x : Exponent) : ℤ :=
  if x.sign = some (unit '-') then -(numeral digit x.digits) else numeral digit x.digits

end Exponent

namespace Numeral

variable (digit : UInt16 → Option ℕ)

def text (n : Numeral) : JsString :=
  (if n.minus then [unit '-'] else []) ++ n.int ++ (n.frac.map (unit '.' :: ·)).getD [] ++
    (n.exp.map Exponent.text).getD []

/-- A leading zero stands alone. -/
structure WellFormed (n : Numeral) : Prop where
  int : n.int = [unit '0'] ∨ (IsDigits digit n.int ∧ n.int.head? ≠ some (unit '0'))
  frac : ∀ f, n.frac = some f → IsDigits digit f
  exp : ∀ x, n.exp = some x → x.WellFormed digit

/-- The digits before and after the point. -/
def digits (n : Numeral) : JsString := n.int ++ n.frac.getD []

def exponent (n : Numeral) : ℤ := (n.exp.map (Exponent.value digit)).getD 0

/-- The digits as an integer, with their sign. -/
def unscaled (n : Numeral) : ℤ := if n.minus then -(numeral digit n.digits) else numeral digit n.digits

def value (n : Numeral) : ℚ := n.unscaled digit * 10 ^ (n.exponent digit - (n.frac.getD []).length)

end Numeral

/-! ### Texts -/

variable {d d' : Dialect}

def isWs (c : UInt16) : Bool := c = unit ' ' || c = unit '\n' || c = unit '\r' || c = unit '\t'

/-- White space, and what follows. -/
inductive Ws : JsString → JsString → Prop
  | nil {s : JsString} : Ws s s
  | cons {c : UInt16} {s r : JsString} : isWs c = true → Ws s r → Ws (c :: s) r

/-- What a backslash and one unit stand for. -/
def unescape (e : UInt16) : Option UInt16 :=
  if e = unit '"' ∨ e = unit '\\' ∨ e = unit '/' then some e
  else if e = unit 'b' then some 0x08
  else if e = unit 'f' then some 0x0C
  else if e = unit 'n' then some 0x0A
  else if e = unit 'r' then some 0x0D
  else if e = unit 't' then some 0x09
  else none

/-- The rest of a string after its quotation mark, and what follows. -/
inductive Chars (hex : UInt16 → Option ℕ) : JsString → JsString → JsString → Prop
  | close {r : JsString} : Chars hex (unit '"' :: r) [] r
  | plain {c : UInt16} {s t r : JsString} : 0x20 ≤ c → c ≠ unit '"' → c ≠ unit '\\' → Chars hex s t r →
      Chars hex (c :: s) (c :: t) r
  | short {e c : UInt16} {s t r : JsString} : unescape e = some c → Chars hex s t r →
      Chars hex (unit '\\' :: e :: s) (c :: t) r
  | unicode {c₁ c₂ c₃ c₄ : UInt16} {n₁ n₂ n₃ n₄ : ℕ} {s t r : JsString} : hex c₁ = some n₁ → hex c₂ = some n₂ →
      hex c₃ = some n₃ → hex c₄ = some n₄ → Chars hex s t r →
      Chars hex (unit '\\' :: unit 'u' :: c₁ :: c₂ :: c₃ :: c₄ :: s)
        ((((n₁ * 16 + n₂) * 16 + n₃) * 16 + n₄).toUInt16 :: t) r

/-- A number, and what follows. -/
def Number (d : Dialect) (s : JsString) (q : ℚ) (r : JsString) : Prop :=
  ∃ n : Numeral, n.WellFormed d.decimal ∧ d.Fits (n.frac.getD []).length (n.exponent d.decimal) ∧
    s = n.text ++ r ∧ q = n.value d.decimal

mutual

/-- A value, and what follows. -/
inductive Value (d : Dialect) : JsString → Json → JsString → Prop
  | null {r : JsString} : Value d (js "null" ++ r) .null r
  | true {r : JsString} : Value d (js "true" ++ r) (.bool true) r
  | false {r : JsString} : Value d (js "false" ++ r) (.bool false) r
  | number {s r : JsString} {q : ℚ} : Number d s q r → Value d s (.num q) r
  | string {s t r : JsString} : Chars d.hex s t r → Value d (unit '"' :: s) (.str t) r
  | emptyArray {s r : JsString} : Ws s (unit ']' :: r) → Value d (unit '[' :: s) (.arr []) r
  | array {s r : JsString} {items : List Json} : Elements d s items r → Value d (unit '[' :: s) (.arr items) r
  | emptyObject {s r : JsString} : Ws s (unit '}' :: r) → Value d (unit '{' :: s) (.obj []) r
  | object {s r : JsString} {members : List (JsString × Json)} : Members d s members r →
      (members.map Prod.fst).Nodup → Value d (unit '{' :: s) (.obj members) r

/-- The values of an array up to its end, and what follows. -/
inductive Elements (d : Dialect) : JsString → List Json → JsString → Prop
  | last {s s₁ s₂ r : JsString} {v : Json} : Ws s s₁ → Value d s₁ v s₂ → Ws s₂ (unit ']' :: r) → Elements d s [v] r
  | more {s s₁ s₂ s₃ r : JsString} {v : Json} {items : List Json} : Ws s s₁ → Value d s₁ v s₂ →
      Ws s₂ (unit ',' :: s₃) → Elements d s₃ items r → Elements d s (v :: items) r

/-- The members of an object up to its end, and what follows. -/
inductive Members (d : Dialect) : JsString → List (JsString × Json) → JsString → Prop
  | last {s s₁ s₂ s₃ s₄ s₅ r key : JsString} {v : Json} : Ws s (unit '"' :: s₁) → Chars d.hex s₁ key s₂ →
      Ws s₂ (unit ':' :: s₃) → Ws s₃ s₄ → Value d s₄ v s₅ → Ws s₅ (unit '}' :: r) → Members d s [(key, v)] r
  | more {s s₁ s₂ s₃ s₄ s₅ s₆ r key : JsString} {v : Json} {members : List (JsString × Json)} :
      Ws s (unit '"' :: s₁) → Chars d.hex s₁ key s₂ → Ws s₂ (unit ':' :: s₃) → Ws s₃ s₄ → Value d s₄ v s₅ →
      Ws s₅ (unit ',' :: s₆) → Members d s₆ members r → Members d s ((key, v) :: members) r

end

/-- `JSON-text` -/
def Text (d : Dialect) (s : JsString) (v : Json) : Prop := ∃ s₁ s₂, Ws s s₁ ∧ Value d s₁ v s₂ ∧ Ws s₂ []

/-! ### What is read -/

theorem Ws.trans {s s' r : JsString} (h : Ws s s') (h' : Ws s' r) : Ws s r := by
  induction h with
  | nil => exact h'
  | cons hc _ ih => exact .cons hc (ih h')

theorem Ws.length_le {s r : JsString} (h : Ws s r) : r.length ≤ s.length := by
  induction h with
  | nil => exact le_rfl
  | cons _ _ ih => exact ih.trans (Nat.le_succ _)

theorem Elements.of_ws {s s' r : JsString} {items : List Json} (hw : Ws s s') (h : Elements d s' items r) :
    Elements d s items r := by
  cases h with
  | last hw₁ hv hw₂ => exact .last (hw.trans hw₁) hv hw₂
  | more hw₁ hv hw₂ hrest => exact .more (hw.trans hw₁) hv hw₂ hrest

theorem Members.of_ws {s s' r : JsString} {members : List (JsString × Json)} (hw : Ws s s')
    (h : Members d s' members r) : Members d s members r := by
  cases h with
  | last hw₁ hkey hw₂ hw₃ hv hw₄ => exact .last (hw.trans hw₁) hkey hw₂ hw₃ hv hw₄
  | more hw₁ hkey hw₂ hw₃ hv hw₄ hrest => exact .more (hw.trans hw₁) hkey hw₂ hw₃ hv hw₄ hrest

theorem Chars.length_le {hex : UInt16 → Option ℕ} {s t r : JsString} (h : Chars hex s t r) : r.length ≤ s.length := by
  induction h with
  | close => exact Nat.le_succ _
  | plain _ _ _ _ ih => exact ih.trans (Nat.le_succ _)
  | short _ _ ih =>
    simp only [List.length_cons]
    omega
  | unicode _ _ _ _ _ ih =>
    simp only [List.length_cons]
    omega

mutual

theorem Value.length_le {s r : JsString} {v : Json} : Value d s v r → r.length ≤ s.length
  | .null => (List.sublist_append_right _ _).length_le
  | .true => (List.sublist_append_right _ _).length_le
  | .false => (List.sublist_append_right _ _).length_le
  | .number ⟨_, _, _, hs, _⟩ => by
    rw [hs, List.length_append]
    exact Nat.le_add_left _ _
  | .string ht => ht.length_le.trans (Nat.le_succ _)
  | .emptyArray hw => (Nat.le_succ _).trans (hw.length_le.trans (Nat.le_succ _))
  | .array hitems => hitems.length_le.trans (Nat.le_succ _)
  | .emptyObject hw => (Nat.le_succ _).trans (hw.length_le.trans (Nat.le_succ _))
  | .object hmembers _ => hmembers.length_le.trans (Nat.le_succ _)

theorem Elements.length_le {s r : JsString} {items : List Json} : Elements d s items r → r.length ≤ s.length
  | .last hw hv hw' => (Nat.le_succ _).trans (hw'.length_le.trans (hv.length_le.trans hw.length_le))
  | .more hw hv hw' hrest =>
    hrest.length_le.trans ((Nat.le_succ _).trans (hw'.length_le.trans (hv.length_le.trans hw.length_le)))

theorem Members.length_le {s r : JsString} {members : List (JsString × Json)} :
    Members d s members r → r.length ≤ s.length
  | .last hw hkey hw₁ hw₂ hv hw₃ => by
    have h := hw.length_le
    have h₁ := hkey.length_le
    have h₂ := hw₁.length_le
    have h₃ := hw₂.length_le
    have h₄ := hv.length_le
    have h₅ := hw₃.length_le
    rw [List.length_cons] at h h₂ h₅
    omega
  | .more hw hkey hw₁ hw₂ hv hw₃ hrest => by
    have h := hw.length_le
    have h₁ := hkey.length_le
    have h₂ := hw₁.length_le
    have h₃ := hw₂.length_le
    have h₄ := hv.length_le
    have h₅ := hw₃.length_le
    have h₆ := hrest.length_le
    rw [List.length_cons] at h h₂ h₅
    omega

end

/-! ### Larger dialects -/

/-- Every digit of one dialect is the same digit in the other, and every number of one is one of the other. -/
structure Dialect.Le (d d' : Dialect) : Prop where
  decimal : ∀ c n, d.decimal c = some n → d'.decimal c = some n
  hex : ∀ c n, d.hex c = some n → d'.hex c = some n
  fits : ∀ n x, d.Fits n x → d'.Fits n x

theorem IsDigits.mono (h : d.Le d') {t : JsString} (ht : IsDigits d.decimal t) : IsDigits d'.decimal t := by
  refine ⟨ht.1, fun c hc => ?_⟩
  obtain ⟨n, hn⟩ := Option.isSome_iff_exists.mp (ht.2 c hc)
  rw [h.decimal c n hn]
  rfl

theorem numeral_mono (h : d.Le d') {t : JsString} (ht : ∀ c ∈ t, (d.decimal c).isSome = true) :
    numeral d'.decimal t = numeral d.decimal t := by
  refine List.foldl_ext _ _ _ fun n c hc => ?_
  obtain ⟨k, hk⟩ := Option.isSome_iff_exists.mp (ht c hc)
  rw [h.decimal c k hk, hk]

theorem Exponent.WellFormed.mono (h : d.Le d') {x : Exponent} (hx : x.WellFormed d.decimal) : x.WellFormed d'.decimal :=
  ⟨hx.marker, hx.sign, hx.digits.mono h⟩

theorem Exponent.value_mono (h : d.Le d') {x : Exponent} (hx : x.WellFormed d.decimal) :
    x.value d'.decimal = x.value d.decimal := by
  rw [Exponent.value, Exponent.value, numeral_mono h hx.digits.2]

theorem Numeral.WellFormed.mono (h : d.Le d') {n : Numeral} (hn : n.WellFormed d.decimal) : n.WellFormed d'.decimal :=
  ⟨hn.int.imp_right fun hdigits => ⟨hdigits.1.mono h, hdigits.2⟩, fun f hf => (hn.frac f hf).mono h,
    fun x hx => (hn.exp x hx).mono h⟩

/-- The digits of a number are digits. -/
theorem Numeral.WellFormed.isSome_digit {n : Numeral} (hn : n.WellFormed d.decimal) :
    ∀ c ∈ n.digits, (d.decimal c).isSome = true := by
  intro c hc
  rcases List.mem_append.mp hc with hc | hc
  · rcases hn.int with hzero | hdigits
    · rw [hzero, List.mem_singleton] at hc
      rw [hc, d.zero]
      rfl
    · exact hdigits.1.2 c hc
  · cases hfrac : n.frac with
    | none =>
      rw [hfrac] at hc
      cases hc
    | some f =>
      rw [hfrac] at hc
      exact (hn.frac f hfrac).2 c hc

theorem Numeral.exponent_mono (h : d.Le d') {n : Numeral} (hn : n.WellFormed d.decimal) :
    n.exponent d'.decimal = n.exponent d.decimal := by
  cases hexp : n.exp with
  | none => rw [Numeral.exponent, Numeral.exponent, hexp]; rfl
  | some x =>
    rw [Numeral.exponent, Numeral.exponent, hexp]
    exact Exponent.value_mono h (hn.exp x hexp)

theorem Numeral.value_mono (h : d.Le d') {n : Numeral} (hn : n.WellFormed d.decimal) :
    n.value d'.decimal = n.value d.decimal := by
  rw [Numeral.value, Numeral.value, Numeral.exponent_mono h hn, Numeral.unscaled, Numeral.unscaled,
    numeral_mono h hn.isSome_digit]

theorem Number.mono (h : d.Le d') {s r : JsString} {q : ℚ} (hs : Number d s q r) : Number d' s q r := by
  obtain ⟨n, hn, hfits, hs, hq⟩ := hs
  refine ⟨n, hn.mono h, ?_, hs, hq.trans (Numeral.value_mono h hn).symm⟩
  rw [Numeral.exponent_mono h hn]
  exact h.fits _ _ hfits

theorem Chars.mono (h : d.Le d') {s t r : JsString} (hs : Chars d.hex s t r) : Chars d'.hex s t r := by
  induction hs with
  | close => exact .close
  | plain hc hquote hbackslash _ ih => exact .plain hc hquote hbackslash ih
  | short he _ ih => exact .short he ih
  | unicode h₁ h₂ h₃ h₄ _ ih => exact .unicode (h.hex _ _ h₁) (h.hex _ _ h₂) (h.hex _ _ h₃) (h.hex _ _ h₄) ih

mutual

theorem Value.mono (h : d.Le d') {s r : JsString} {v : Json} : Value d s v r → Value d' s v r
  | .null => .null
  | .true => .true
  | .false => .false
  | .number hq => .number (hq.mono h)
  | .string ht => .string (ht.mono h)
  | .emptyArray hw => .emptyArray hw
  | .array hitems => .array (hitems.mono h)
  | .emptyObject hw => .emptyObject hw
  | .object hmembers hkeys => .object (hmembers.mono h) hkeys

theorem Elements.mono (h : d.Le d') {s r : JsString} {items : List Json} : Elements d s items r → Elements d' s items r
  | .last hw hv hw' => .last hw (hv.mono h) hw'
  | .more hw hv hw' hrest => .more hw (hv.mono h) hw' (hrest.mono h)

theorem Members.mono (h : d.Le d') {s r : JsString} {members : List (JsString × Json)} :
    Members d s members r → Members d' s members r
  | .last hw hkey hw₁ hw₂ hv hw₃ => .last hw (hkey.mono h) hw₁ hw₂ (hv.mono h) hw₃
  | .more hw hkey hw₁ hw₂ hv hw₃ hrest => .more hw (hkey.mono h) hw₁ hw₂ (hv.mono h) hw₃ (hrest.mono h)

end

theorem Text.mono (h : d.Le d') {s : JsString} {v : Json} (hs : Text d s v) : Text d' s v := by
  obtain ⟨s₁, s₂, hw, hv, hw'⟩ := hs
  exact ⟨s₁, s₂, hw, hv.mono h, hw'⟩

end JsonGrammar
