/-
LiveProbe/JvmJsonWriter.lean

The JSON writer of the JVM bridge, `Json.stringify`, and its round trip.

What is written is a text of RFC 8259 whose value is that of the object
(`write_value`), and the parser reads every such text (`parse_iff`).  So the two
halves never meet: the writer is compared with the grammar, not with the parser.

The texts of `Double` and `Float` are the library's; `Floats.Documented` says what
its documentation promises of them.
-/
import LiveProbe.CodePoints
import LiveProbe.JvmJsonParser

open JsString JsonGrammar

namespace JvmJson

/-! ### Objects -/

/-- A `BigDecimal`; its scale is an `int`. -/
structure BigDecimal where
  unscaled : ℤ
  scale : ℤ
  isInt : intMin ≤ scale ∧ scale ≤ intMax

/-- `Double` and `Float`. -/
structure Floats (F : Type) where
  isFinite : F → Bool
  toString : F → JsString
  /-- the numbers that are rounded to it -/
  Reads : ℚ → F → Prop

/-- An object, as `write` tells them apart: a `Number` that is no `BigDecimal` and no floating one is an integer. -/
inductive JavaObject (F : Type)
  | null
  | string (s : JsString)
  | boolean (b : Bool)
  | floating (f : F)
  | bigDecimal (d : BigDecimal)
  | integer (n : ℤ)
  | map (entries : List (JavaObject F × JavaObject F))
  | iterable (items : List (JavaObject F))
  | array (items : List (JavaObject F))
  | other (className : JsString)

/-- What `writeString` appends for a unit. -/
def writeUnit (c : UInt16) : JsString :=
  if c = unit '"' then js "\\\""
  else if c = unit '\\' then js "\\\\"
  else if c = 0x08 then js "\\b"
  else if c = 0x0C then js "\\f"
  else if c = unit '\n' then js "\\n"
  else if c = unit '\r' then js "\\r"
  else if c = unit '\t' then js "\\t"
  else if c < 0x20 then unicodeEscape c
  else [c]

/-- `writeString` -/
def writeString (s : JsString) : JsString := unit '"' :: (s.flatMap writeUnit ++ [unit '"'])

/-- `toString` of an integer. -/
def integerText (n : ℤ) : JsString := (if n < 0 then [unit '-'] else []) ++ decimal n.natAbs

/-- `toPlainString` -/
def BigDecimal.toPlainString (d : BigDecimal) : JsString :=
  let digits := decimal d.unscaled.natAbs
  if d.scale = 0 then integerText d.unscaled
  else if d.scale < 0 then
    if d.unscaled = 0 then js "0" else integerText d.unscaled ++ List.replicate d.scale.natAbs (unit '0')
  else
    (if d.unscaled < 0 then [unit '-'] else []) ++
      if d.scale.natAbs < digits.length then
        digits.take (digits.length - d.scale.natAbs) ++ unit '.' :: digits.drop (digits.length - d.scale.natAbs)
      else js "0." ++ List.replicate (d.scale.natAbs - digits.length) (unit '0') ++ digits

/-- The number. -/
def BigDecimal.value (d : BigDecimal) : ℚ := d.unscaled * 10 ^ (-d.scale)

section Writer

variable {F : Type} (floats : Floats F)

mutual

/-- `write`; the error is the message of a `JsonException`. -/
def write : JavaObject F → Except JsString JsString
  | .null => .ok (js "null")
  | .string s => .ok (writeString s)
  | .boolean b => .ok (if b then js "true" else js "false")
  | .floating f => if floats.isFinite f then .ok (floats.toString f) else .error (js "JSON numbers must be finite")
  | .bigDecimal d => .ok d.toPlainString
  | .integer n => .ok (integerText n)
  | .map entries => (writeEntries entries).map fun text => unit '{' :: (text ++ [unit '}'])
  | .iterable items => (writeItems items).map fun text => unit '[' :: (text ++ [unit ']'])
  | .array items => (writeItems items).map fun text => unit '[' :: (text ++ [unit ']'])
  | .other className => .error (js "unsupported JSON value: " ++ className)

/-- The entries of a map, with a comma after each but the last. -/
def writeEntries : List (JavaObject F × JavaObject F) → Except JsString JsString
  | [] => .ok []
  | (.string key, v) :: entries => do
    let value ← write v
    let rest ← writeEntries entries
    .ok (writeString key ++ unit ':' :: (value ++ if entries.isEmpty then [] else unit ',' :: rest))
  | _ :: _ => .error (js "JSON object keys must be strings")

/-- The items of an `Iterable` or an array, with a comma between any two. -/
def writeItems : List (JavaObject F) → Except JsString JsString
  | [] => .ok []
  | v :: items => do
    let value ← write v
    let rest ← writeItems items
    .ok (value ++ if items.isEmpty then [] else unit ',' :: rest)

end

/-- `Json.stringify` -/
def stringify (v : JavaObject F) : Except JsString JsString := write floats v

/-! ### Numbers -/

theorem asciiDigit_of_isDigit {c : UInt16} (h : JsString.isDigit c = true) : asciiDigit c = some (c.toNat - 0x30) := by
  rw [JsString.isDigit, Bool.and_eq_true, decide_eq_true_eq, decide_eq_true_eq] at h
  exact if_pos h

theorem isDigits_decimal (n : ℕ) : IsDigits asciiDigit (decimal n) := by
  refine ⟨(isNumeral_decimal n).1, fun c hc => ?_⟩
  rw [asciiDigit_of_isDigit (isDigit_of_mem_decimal hc)]
  rfl

theorem numeral_decimal (n : ℕ) : numeral asciiDigit (decimal n) = n := by
  conv_rhs => rw [← digitsValue_decimal n]
  refine List.foldl_ext _ _ _ fun k c hc => ?_
  rw [asciiDigit_of_isDigit (isDigit_of_mem_decimal hc)]
  rfl

theorem asciiDigit_zero : asciiDigit (unit '0') = some 0 := rfl

theorem isDigits_append {s t : JsString} (hs : IsDigits asciiDigit s) (ht : ∀ c ∈ t, (asciiDigit c).isSome = true) :
    IsDigits asciiDigit (s ++ t) :=
  ⟨List.append_ne_nil_of_left_ne_nil hs.1 t, fun c hc => (List.mem_append.mp hc).elim (hs.2 c) (ht c)⟩

theorem isSome_zeros (k : ℕ) : ∀ c ∈ List.replicate k (unit '0'), (asciiDigit c).isSome = true := by
  intro c hc
  rw [List.eq_of_mem_replicate hc]
  rfl

/-- Digits before the point. -/
def IsInteger (t : JsString) : Prop := t = [unit '0'] ∨ (IsDigits asciiDigit t ∧ t.head? ≠ some (unit '0'))

theorem isInteger_decimal (n : ℕ) : IsInteger (decimal n) :=
  (isNumeral_decimal n).2.2.imp_right fun h => ⟨isDigits_decimal n, h⟩

theorem signed_natAbs (u : ℤ) (m : ℕ) : (if u < 0 then -(u.natAbs * m : ℤ) else u.natAbs * m) = u * m := by
  split
  · next hneg => rw [Int.natCast_natAbs, abs_of_neg hneg, neg_mul, neg_neg]
  · next hpos => rw [Int.natCast_natAbs, abs_of_nonneg (not_lt.mp hpos)]

/-- A number without an exponent. -/
theorem number_of_plain (u : ℤ) (k : ℕ) {int : JsString} {frac : Option JsString} (hint : IsInteger int)
    (hfrac : ∀ f, frac = some f → IsDigits asciiDigit f) (hfits : ((frac.getD []).length : ℤ) ≤ intMax)
    (hdigits : numeral asciiDigit (int ++ frac.getD []) = u.natAbs * 10 ^ k) (r : JsString) :
    Number rfc ((if u < 0 then [unit '-'] else []) ++ int ++ (frac.map (unit '.' :: ·)).getD [] ++ r)
      (u * 10 ^ k * 10 ^ (-((frac.getD []).length : ℤ))) r := by
  refine ⟨⟨decide (u < 0), int, frac, none⟩, ⟨hint, hfrac, nofun⟩, ?_, ?_, ?_⟩
  · show decimalFits _ 0 = true
    rw [decimalFits]
    simp only [Bool.and_eq_true, decide_eq_true_eq]
    have hmax : intMax = 2 ^ 31 - 1 := rfl
    have hmin : intMin = -2 ^ 31 := rfl
    omega
  · rw [Numeral.text]
    simp only [decide_eq_true_eq]
    show _ = _ ++ ([] : JsString) ++ r
    rw [List.append_nil]
  · have hunscaled : (⟨decide (u < 0), int, frac, none⟩ : Numeral).unscaled asciiDigit = u * (10 ^ k : ℕ) := by
      rw [← signed_natAbs, Numeral.unscaled]
      simp only [decide_eq_true_eq, Numeral.digits, hdigits, Nat.cast_mul]
    rw [Numeral.value]
    show _ = (((⟨decide (u < 0), int, frac, none⟩ : Numeral).unscaled asciiDigit : ℤ) : ℚ) * 10 ^ ((0 : ℤ) - _)
    rw [hunscaled, zero_sub]
    push_cast
    rfl

theorem number_integerText (n : ℤ) (r : JsString) : Number rfc (integerText n ++ r) n r := by
  have h := @number_of_plain n 0 _ none (isInteger_decimal n.natAbs) nofun (by decide)
    (by rw [Option.getD_none, List.append_nil, numeral_decimal, pow_zero, mul_one]) r
  simpa [integerText] using h

/-- A number that is not zero has no leading zero. -/
theorem head?_decimal {n : ℕ} (h : n ≠ 0) : (decimal n).head? ≠ some (unit '0') := by
  rcases isInteger_decimal n with hzero | hdigits
  · have hzero' : decimal n = decimal 0 := hzero
    exact absurd (decimal_injective hzero') h
  · exact hdigits.2

theorem isInteger_of_head {t : JsString} {n : ℕ} (hn : n ≠ 0) (ht : IsDigits asciiDigit t)
    (hhead : t.head? = (decimal n).head?) : IsInteger t := .inr ⟨ht, hhead ▸ head?_decimal hn⟩

/-- A number with digits after its point. -/
theorem number_of_fraction (u : ℤ) {int frac : JsString} (hint : IsInteger int) (hfrac : IsDigits asciiDigit frac)
    (hfits : (frac.length : ℤ) ≤ intMax) (hdigits : numeral asciiDigit (int ++ frac) = u.natAbs) (r : JsString) :
    Number rfc ((if u < 0 then [unit '-'] else []) ++ (int ++ unit '.' :: frac) ++ r) (u * 10 ^ (-(frac.length : ℤ))) r := by
  have h := @number_of_plain u 0 int (some frac) hint (fun f hf => Option.some.inj hf ▸ hfrac) hfits
    (by rw [pow_zero, mul_one]; exact hdigits) r
  rw [pow_zero, mul_one] at h
  rw [← List.append_assoc (if u < 0 then [unit '-'] else [])]
  exact h

theorem number_toPlainString (d : BigDecimal) (r : JsString) : Number rfc (d.toPlainString ++ r) d.value r := by
  obtain ⟨u, scale, hmin, hmax⟩ := d
  simp only [BigDecimal.toPlainString, BigDecimal.value]
  have hdigits := isDigits_decimal u.natAbs
  split
  · next hscale =>
    rw [hscale, neg_zero, zpow_zero, mul_one]
    exact number_integerText u r
  split
  · next hscale hneg =>
    obtain ⟨k, rfl⟩ : ∃ k : ℕ, scale = -(k : ℤ) := ⟨scale.natAbs, by omega⟩
    rw [Int.natAbs_neg, Int.natAbs_natCast, neg_neg, zpow_natCast]
    split
    · next hzero =>
      rw [hzero, Int.cast_zero, zero_mul]
      exact number_integerText 0 r
    · next hzero =>
      have hint : IsInteger (decimal u.natAbs ++ List.replicate k (unit '0')) :=
        isInteger_of_head (Int.natAbs_ne_zero.mpr hzero) (isDigits_append hdigits (isSome_zeros k))
          (head?_append_of_ne_nil hdigits.1)
      have h := @number_of_plain u k _ none hint nofun (by decide)
        (by rw [Option.getD_none, List.append_nil, numeral_append_replicate asciiDigit_zero, numeral_decimal]) r
      simpa [integerText, List.append_assoc] using h
  · next hscale hpos =>
    obtain ⟨k, rfl⟩ : ∃ k : ℕ, scale = k := ⟨scale.natAbs, by omega⟩
    rw [Int.natAbs_natCast]
    by_cases hlength : k < (decimal u.natAbs).length
    · rw [if_pos hlength]
      have hlen : ((decimal u.natAbs).drop ((decimal u.natAbs).length - k)).length = k := by
        rw [List.length_drop]
        omega
      have hzero : u.natAbs ≠ 0 := by
        intro hzero
        rw [hzero] at hlength
        have hone : (decimal 0).length = 1 := rfl
        omega
      have h := @number_of_fraction u ((decimal u.natAbs).take ((decimal u.natAbs).length - k))
        ((decimal u.natAbs).drop ((decimal u.natAbs).length - k)) (isInteger_of_head hzero ⟨?_, fun c hc => hdigits.2 c (List.mem_of_mem_take hc)⟩ ?_)
        ⟨List.ne_nil_of_length_pos (by omega), fun c hc => hdigits.2 c (List.mem_of_mem_drop hc)⟩ (by omega)
        (by rw [List.take_append_drop, numeral_decimal]) r
      · rwa [hlen] at h
      · exact List.ne_nil_of_length_pos (by rw [List.length_take]; omega)
      · rw [List.head?_take, if_neg (by omega)]
    · rw [if_neg hlength]
      have hlen : (List.replicate (k - (decimal u.natAbs).length) (unit '0') ++ decimal u.natAbs).length = k := by
        rw [List.length_append, List.length_replicate]
        omega
      have h := @number_of_fraction u [unit '0'] (List.replicate (k - (decimal u.natAbs).length) (unit '0') ++
        decimal u.natAbs) (.inl rfl) ⟨List.append_ne_nil_of_right_ne_nil _ hdigits.1, fun c hc =>
          (List.mem_append.mp hc).elim (isSome_zeros _ c) (hdigits.2 c)⟩ (by omega)
        ?_ r
      · rw [hlen] at h
        have hpoint : js "0." = [unit '0', unit '.'] := rfl
        simpa [hpoint, List.append_assoc] using h
      · rw [← List.append_assoc, ← List.replicate_one, List.replicate_append_replicate]
        rw [numeral_replicate_append asciiDigit_zero, numeral_decimal]

/-! ### Strings -/

theorem asciiHex_hexDigit : ∀ n, n < 16 → asciiHex (hexDigit n) = some n := by decide

theorem chars_unicodeEscape (c : UInt16) {s t r : JsString} (h : Chars asciiHex s t r) :
    Chars asciiHex (unicodeEscape c ++ s) (c :: t) r := by
  have hlt : c.toNat < 65536 := c.toNat_lt
  have hread := Chars.unicode (asciiHex_hexDigit (c.toNat / 4096) (by omega))
    (asciiHex_hexDigit (c.toNat / 256 % 16) (by omega)) (asciiHex_hexDigit (c.toNat / 16 % 16) (by omega))
    (asciiHex_hexDigit (c.toNat % 16) (by omega)) h
  have hunit : ((((c.toNat / 4096 * 16 + c.toNat / 256 % 16) * 16 + c.toNat / 16 % 16) * 16 + c.toNat % 16).toUInt16) = c := by
    rw [show ((c.toNat / 4096 * 16 + c.toNat / 256 % 16) * 16 + c.toNat / 16 % 16) * 16 + c.toNat % 16 = c.toNat by omega]
    exact UInt16.ofNat_toNat
  rw [hunit] at hread
  exact hread

/-- A unit is read as it was written. -/
theorem chars_writeUnit (c : UInt16) {s t r : JsString} (h : Chars asciiHex s t r) :
    Chars asciiHex (writeUnit c ++ s) (c :: t) r := by
  rw [writeUnit]
  split
  · next hc =>
    subst hc
    exact .short rfl h
  next hquote =>
  split
  · next hc =>
    subst hc
    exact .short rfl h
  next hbackslash =>
  split
  · next hc =>
    subst hc
    exact .short rfl h
  split
  · next hc =>
    subst hc
    exact .short rfl h
  split
  · next hc =>
    subst hc
    exact .short rfl h
  split
  · next hc =>
    subst hc
    exact .short rfl h
  split
  · next hc =>
    subst hc
    exact .short rfl h
  split
  · exact chars_unicodeEscape c h
  · next hcontrol => exact .plain (UInt16.not_lt.mp hcontrol) hquote hbackslash h

theorem chars_writeString (s r : JsString) : Chars asciiHex (s.flatMap writeUnit ++ unit '"' :: r) s r := by
  induction s with
  | nil => exact .close
  | cons c s ih =>
    rw [List.flatMap_cons, List.append_assoc]
    exact chars_writeUnit c ih

theorem writeString_append (s r : JsString) : writeString s ++ r = unit '"' :: (s.flatMap writeUnit ++ unit '"' :: r) := by
  rw [writeString, List.cons_append, List.append_assoc]
  rfl

/-! ### Meanings -/

/-- What the documentation of `Double.toString` and `Float.toString` says: a finite number is written with a sign,
digits on both sides of a point and perhaps an exponent, and what is written is rounded to the number. -/
structure Floats.Documented (floats : Floats F) : Prop where
  text : ∀ f, floats.isFinite f = true → ∃ n : Numeral, n.WellFormed asciiDigit ∧ (n.frac.getD []).length ≤ 32 ∧
    |n.exponent asciiDigit| ≤ 400 ∧ floats.toString f = n.text ∧ floats.Reads (n.value asciiDigit) f

mutual

/-- The JSON values that are an object, whatever its numbers are represented by. -/
inductive Means : JavaObject F → Json → Prop
  | null : Means .null .null
  | string {s : JsString} : Means (.string s) (.str s)
  | boolean {b : Bool} : Means (.boolean b) (.bool b)
  | floating {f : F} {q : ℚ} : floats.Reads q f → Means (.floating f) (.num q)
  | bigDecimal {d : BigDecimal} : Means (.bigDecimal d) (.num d.value)
  | integer {n : ℤ} : Means (.integer n) (.num n)
  | map {entries : List (JavaObject F × JavaObject F)} {members : List (JsString × Json)} :
      MeansEntries entries members → Means (.map entries) (.obj members)
  | iterable {items : List (JavaObject F)} {values : List Json} :
      MeansItems items values → Means (.iterable items) (.arr values)
  | array {items : List (JavaObject F)} {values : List Json} :
      MeansItems items values → Means (.array items) (.arr values)

inductive MeansItems : List (JavaObject F) → List Json → Prop
  | nil : MeansItems [] []
  | cons {v : JavaObject F} {items : List (JavaObject F)} {j : Json} {values : List Json} :
      Means v j → MeansItems items values → MeansItems (v :: items) (j :: values)

inductive MeansEntries : List (JavaObject F × JavaObject F) → List (JsString × Json) → Prop
  | nil : MeansEntries [] []
  | cons {key : JsString} {v : JavaObject F} {entries : List (JavaObject F × JavaObject F)} {j : Json}
      {members : List (JsString × Json)} :
      Means v j → MeansEntries entries members → MeansEntries ((.string key, v) :: entries) ((key, j) :: members)

end

/-- The keys of a map that are strings. -/
def stringKeys (entries : List (JavaObject F × JavaObject F)) : List JsString :=
  entries.filterMap fun e => match e.1 with
    | .string key => some key
    | _ => none

mutual

/-- The keys of every map are distinct, as those of a `Map` are. -/
def JavaObject.KeysDistinct : JavaObject F → Prop
  | .map entries => (stringKeys entries).Nodup ∧ keysDistinctEntries entries
  | .iterable items => keysDistinctItems items
  | .array items => keysDistinctItems items
  | _ => True

def keysDistinctItems : List (JavaObject F) → Prop
  | [] => True
  | v :: items => v.KeysDistinct ∧ keysDistinctItems items

def keysDistinctEntries : List (JavaObject F × JavaObject F) → Prop
  | [] => True
  | (_, v) :: entries => v.KeysDistinct ∧ keysDistinctEntries entries

end

mutual

/-- `null`, booleans, strings, integers, finite decimals, lists of them and maps from strings to them. -/
def JavaObject.Plain : JavaObject F → Prop
  | .floating f => floats.isFinite f = true
  | .map entries => plainEntries entries
  | .iterable items => plainItems items
  | .array items => plainItems items
  | .other _ => False
  | _ => True

def plainItems : List (JavaObject F) → Prop
  | [] => True
  | v :: items => v.Plain ∧ plainItems items

def plainEntries : List (JavaObject F × JavaObject F) → Prop
  | [] => True
  | (.string _, v) :: entries => v.Plain ∧ plainEntries entries
  | _ :: _ => False

end

/-! ### What is written -/

variable {floats}

theorem number_floating (hfloats : floats.Documented) {f : F} (hf : floats.isFinite f = true) :
    ∃ q, floats.Reads q f ∧ ∀ r, Number rfc (floats.toString f ++ r) q r := by
  obtain ⟨n, hn, hfrac, hexp, htext, hreads⟩ := hfloats.text f hf
  refine ⟨_, hreads, fun r => ⟨n, hn, ?_, by rw [htext], rfl⟩⟩
  have hexp' := abs_le.mp hexp
  have hmax : intMax = 2 ^ 31 - 1 := rfl
  have hmin : intMin = -2 ^ 31 := rfl
  show decimalFits (n.frac.getD []).length (n.exponent asciiDigit) = true
  rw [decimalFits]
  simp only [Bool.and_eq_true, decide_eq_true_eq]
  omega

theorem writeItems_cons (v : JavaObject F) (items : List (JavaObject F)) :
    writeItems floats (v :: items) = (write floats v >>= fun value => writeItems floats items >>= fun rest =>
      Except.ok (value ++ if items.isEmpty then [] else unit ',' :: rest)) := by
  rw [writeItems]

theorem writeEntries_cons (key : JsString) (v : JavaObject F) (entries : List (JavaObject F × JavaObject F)) :
    writeEntries floats ((.string key, v) :: entries) =
      (write floats v >>= fun value => writeEntries floats entries >>= fun rest =>
        Except.ok (writeString key ++ unit ':' :: (value ++ if entries.isEmpty then [] else unit ',' :: rest))) := by
  rw [writeEntries]

/-- The text of an array, from that of its items. -/
theorem value_of_items {items : List (JavaObject F)} {text : JsString} {values : List Json}
    (h : writeItems floats items = .ok text) (hmeans : MeansItems floats items values)
    (helements : items ≠ [] → ∀ r, Elements rfc (text ++ unit ']' :: r) values r) (r : JsString) :
    Value rfc (unit '[' :: (text ++ [unit ']']) ++ r) (.arr values) r := by
  rw [List.cons_append, List.append_assoc]
  cases hmeans with
  | nil =>
    rw [writeItems] at h
    cases h
    exact .emptyArray .nil
  | cons _ _ => exact .array (helements (List.cons_ne_nil _ _) r)

/-- The text of an object, from that of its members. -/
theorem value_of_entries {entries : List (JavaObject F × JavaObject F)} {text : JsString}
    {members : List (JsString × Json)} (h : writeEntries floats entries = .ok text)
    (hmeans : MeansEntries floats entries members) (hnames : (members.map Prod.fst).Nodup)
    (hmembers : entries ≠ [] → ∀ r, Members rfc (text ++ unit '}' :: r) members r) (r : JsString) :
    Value rfc (unit '{' :: (text ++ [unit '}']) ++ r) (.obj members) r := by
  rw [List.cons_append, List.append_assoc]
  cases hmeans with
  | nil =>
    rw [writeEntries] at h
    cases h
    exact .emptyObject .nil
  | cons _ _ => exact .object (hmembers (List.cons_ne_nil _ _) r) hnames

theorem exists_key {k v : JavaObject F} {entries : List (JavaObject F × JavaObject F)} {text : JsString}
    (h : writeEntries floats ((k, v) :: entries) = .ok text) : ∃ key, k = .string key := by
  cases k with
  | string key => exact ⟨key, rfl⟩
  | _ => cases h

mutual

/-- What is written is a JSON text for the object. -/
theorem write_value (hfloats : floats.Documented) : ∀ (v : JavaObject F) {text : JsString}, v.KeysDistinct →
    write floats v = .ok text → ∃ j, Means floats v j ∧ ∀ r, Value rfc (text ++ r) j r
  | .null, text, _, h => by
    rw [write] at h
    cases h
    exact ⟨_, .null, fun r => .null⟩
  | .string s, text, _, h => by
    rw [write] at h
    cases h
    refine ⟨_, .string, fun r => ?_⟩
    rw [writeString_append]
    exact .string (chars_writeString s r)
  | .boolean b, text, _, h => by
    rw [write] at h
    cases h
    refine ⟨_, .boolean, fun r => ?_⟩
    cases b with
    | true => exact .true
    | false => exact .false
  | .floating f, text, _, h => by
    rw [write] at h
    split at h
    · next hfinite =>
      cases h
      obtain ⟨q, hreads, hq⟩ := number_floating hfloats hfinite
      exact ⟨_, .floating hreads, fun r => .number (hq r)⟩
    · cases h
  | .bigDecimal d, text, _, h => by
    rw [write] at h
    cases h
    exact ⟨_, .bigDecimal, fun r => .number (number_toPlainString d r)⟩
  | .integer n, text, _, h => by
    rw [write] at h
    cases h
    exact ⟨_, .integer, fun r => .number (number_integerText n r)⟩
  | .map entries, text, hkeys, h => by
    rw [write] at h
    obtain ⟨inner, hinner, rfl⟩ := Outcome.map_eq_ok.mp h
    obtain ⟨members, hmeans, hnames, hmembers⟩ := writeEntries_members hfloats entries hkeys.2 hinner
    exact ⟨_, .map hmeans, value_of_entries hinner hmeans (hnames ▸ hkeys.1) hmembers⟩
  | .iterable items, text, hkeys, h => by
    rw [write] at h
    obtain ⟨inner, hinner, rfl⟩ := Outcome.map_eq_ok.mp h
    obtain ⟨values, hmeans, hvalues⟩ := writeItems_elements hfloats items hkeys hinner
    exact ⟨_, .iterable hmeans, value_of_items hinner hmeans hvalues⟩
  | .array items, text, hkeys, h => by
    rw [write] at h
    obtain ⟨inner, hinner, rfl⟩ := Outcome.map_eq_ok.mp h
    obtain ⟨values, hmeans, hvalues⟩ := writeItems_elements hfloats items hkeys hinner
    exact ⟨_, .array hmeans, value_of_items hinner hmeans hvalues⟩
  | .other _, text, _, h => by
    rw [write] at h
    cases h

theorem writeItems_elements (hfloats : floats.Documented) : ∀ (items : List (JavaObject F)) {text : JsString},
    keysDistinctItems items → writeItems floats items = .ok text →
    ∃ values, MeansItems floats items values ∧ (items ≠ [] → ∀ r, Elements rfc (text ++ unit ']' :: r) values r)
  | [], text, _, _ => ⟨_, .nil, fun hne => absurd rfl hne⟩
  | v :: items, text, hkeys, h => by
    rw [writeItems_cons] at h
    obtain ⟨value, hvalue, h⟩ := Outcome.bind_eq_ok.mp h
    obtain ⟨rest, hrest, h⟩ := Outcome.bind_eq_ok.mp h
    cases h
    obtain ⟨j, hmeans, hj⟩ := write_value hfloats v hkeys.1 hvalue
    obtain ⟨values, hmeans', hvalues⟩ := writeItems_elements hfloats items hkeys.2 hrest
    refine ⟨_, .cons hmeans hmeans', fun _ r => ?_⟩
    rw [List.append_assoc]
    cases hmeans' with
    | nil => exact .last .nil (hj _) .nil
    | cons _ _ => exact .more .nil (hj _) .nil (hvalues (List.cons_ne_nil _ _) r)

theorem writeEntries_members (hfloats : floats.Documented) : ∀ (entries : List (JavaObject F × JavaObject F))
    {text : JsString}, keysDistinctEntries entries → writeEntries floats entries = .ok text →
    ∃ members, MeansEntries floats entries members ∧ members.map Prod.fst = stringKeys entries ∧
      (entries ≠ [] → ∀ r, Members rfc (text ++ unit '}' :: r) members r)
  | [], text, _, h => ⟨_, .nil, rfl, fun hne => absurd rfl hne⟩
  | (k, v) :: entries, text, hkeys, h => by
    obtain ⟨key, rfl⟩ := exists_key h
    rw [writeEntries_cons] at h
    obtain ⟨value, hvalue, h⟩ := Outcome.bind_eq_ok.mp h
    obtain ⟨rest, hrest, h⟩ := Outcome.bind_eq_ok.mp h
    cases h
    obtain ⟨j, hmeans, hj⟩ := write_value hfloats v hkeys.1 hvalue
    obtain ⟨members, hmeans', hnames, hmembers⟩ := writeEntries_members hfloats entries hkeys.2 hrest
    refine ⟨_, .cons hmeans hmeans', ?_, fun _ r => ?_⟩
    · rw [List.map_cons, hnames]
      rfl
    · rw [List.append_assoc, writeString_append, List.cons_append, List.append_assoc]
      cases hmeans' with
      | nil => exact .last .nil (chars_writeString key _) .nil .nil (hj _) .nil
      | cons _ _ =>
        exact .more .nil (chars_writeString key _) .nil .nil (hj _) .nil (hmembers (List.cons_ne_nil _ _) r)

end

theorem plain_of_entries {k v : JavaObject F} {entries : List (JavaObject F × JavaObject F)}
    (h : plainEntries floats ((k, v) :: entries)) : ∃ key, k = .string key ∧ v.Plain floats ∧ plainEntries floats entries := by
  cases k with
  | string key => exact ⟨key, rfl, h⟩
  | _ => cases h

mutual

/-- A plain object is written. -/
theorem exists_write : ∀ v : JavaObject F, v.Plain floats → ∃ text, write floats v = .ok text
  | .null, _ => ⟨_, by rw [write]⟩
  | .string _, _ => ⟨_, by rw [write]⟩
  | .boolean _, _ => ⟨_, by rw [write]⟩
  | .floating f, hv => ⟨_, by rw [write]; exact if_pos hv⟩
  | .bigDecimal _, _ => ⟨_, by rw [write]⟩
  | .integer _, _ => ⟨_, by rw [write]⟩
  | .map entries, hv => by
    obtain ⟨text, htext⟩ := exists_writeEntries entries hv
    rw [write, htext]
    exact ⟨_, rfl⟩
  | .iterable items, hv => by
    obtain ⟨text, htext⟩ := exists_writeItems items hv
    rw [write, htext]
    exact ⟨_, rfl⟩
  | .array items, hv => by
    obtain ⟨text, htext⟩ := exists_writeItems items hv
    rw [write, htext]
    exact ⟨_, rfl⟩

theorem exists_writeItems : ∀ items : List (JavaObject F), plainItems floats items → ∃ text, writeItems floats items = .ok text
  | [], _ => ⟨_, by rw [writeItems]⟩
  | v :: items, hv => by
    obtain ⟨value, hvalue⟩ := exists_write v hv.1
    obtain ⟨rest, hrest⟩ := exists_writeItems items hv.2
    rw [writeItems_cons]
    exact ⟨_, Outcome.bind_eq_ok.mpr ⟨value, hvalue, Outcome.bind_eq_ok.mpr ⟨rest, hrest, rfl⟩⟩⟩

theorem exists_writeEntries : ∀ entries : List (JavaObject F × JavaObject F), plainEntries floats entries →
    ∃ text, writeEntries floats entries = .ok text
  | [], _ => ⟨_, by rw [writeEntries]⟩
  | (k, v) :: entries, hv => by
    obtain ⟨key, rfl, hv, hentries⟩ := plain_of_entries hv
    obtain ⟨value, hvalue⟩ := exists_write v hv
    obtain ⟨rest, hrest⟩ := exists_writeEntries entries hentries
    rw [writeEntries_cons]
    exact ⟨_, Outcome.bind_eq_ok.mpr ⟨value, hvalue, Outcome.bind_eq_ok.mpr ⟨rest, hrest, rfl⟩⟩⟩

end

/-- A text that is written is read, as what it was written from; and every plain object is written. -/
theorem parse_stringify (hfloats : floats.Documented) (v : JavaObject F) (hkeys : v.KeysDistinct) :
    (v.Plain floats → ∃ text, stringify floats v = .ok text) ∧
      ∀ text, stringify floats v = .ok text → ∃ w, parse text = .ok w ∧ Means floats v w.toJson := by
  refine ⟨exists_write v, fun text htext => ?_⟩
  obtain ⟨j, hmeans, hj⟩ := write_value hfloats v hkeys htext
  have htext' : Text rfc text j := ⟨text, [], .nil, by simpa using hj [], .nil⟩
  obtain ⟨w, hw, rfl⟩ := (parse_iff text j).mpr (htext'.mono rfc_le_java)
  exact ⟨w, hw, hmeans⟩

end Writer

namespace Sample

/-- Two doubles. -/
inductive Floating
  | oneAndHalf
  | nan

/-- What is next to one and a half is rounded to it. -/
def floats : Floats Floating where
  isFinite
    | .oneAndHalf => true
    | .nan => false
  toString
    | .oneAndHalf => js "1.5"
    | .nan => js "NaN"
  Reads q
    | .oneAndHalf => |q - 3 / 2| ≤ 1 / 2 ^ 53
    | .nan => False

theorem isDigits_one : IsDigits asciiDigit (js "1") := ⟨List.cons_ne_nil _ _, List.all_eq_true.mp rfl⟩

theorem isDigits_five : IsDigits asciiDigit (js "5") := ⟨List.cons_ne_nil _ _, List.all_eq_true.mp rfl⟩

theorem floats_documented : floats.Documented where
  text
    | .oneAndHalf, _ => by
      refine ⟨⟨false, js "1", some (js "5"), none⟩, ⟨.inr ⟨isDigits_one, by decide⟩, ?_, nofun⟩, by decide, by decide, rfl, ?_⟩
      · rintro f ⟨rfl⟩
        exact isDigits_five
      · show |(15 : ℚ) * 10 ^ (-1 : ℤ) - 3 / 2| ≤ 1 / 2 ^ 53
        norm_num
    | .nan, hfinite => by cases hfinite

/-- A map of each kind of value. -/
def payload : JavaObject Floating :=
  .map [(.string (js "text"), .string (js "\"\n" ++ [0x01, 0xD800])),
    (.string (js "numbers"), .array [.floating .oneAndHalf, .bigDecimal ⟨-1250, 3, by decide⟩, .integer (-20)]),
    (.string (js "rest"), .iterable [.null, .boolean true, .map []])]

theorem parse_payload : ∃ w, parse (js "\x7b\"text\":\"\\\"\\n\\u0001" ++ [0xD800] ++
    js "\",\"numbers\":[1.5,-1.250,-20],\"rest\":[null,true,\x7b\x7d]\x7d") = .ok w ∧ Means floats payload w.toJson :=
  (parse_stringify floats_documented payload ⟨by decide, ⟨trivial, ⟨trivial, trivial, trivial, trivial⟩,
    ⟨trivial, trivial, ⟨List.nodup_nil, trivial⟩, trivial⟩, trivial⟩⟩).2 _ rfl

end Sample

end JvmJson
