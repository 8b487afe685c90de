/-
LiveProbe/JvmJsonParser.lean

The JSON parser of the JVM bridge: the class `Parser` of `Json.java`.

The position in the input is what is left of it.  The digits are those of
`Character.isDigit` and `Character.digit`, which know more of them than JSON does.

Apart from that the parser is right: it accepts the texts of the grammar read
with its own digits, and computes their values (`parse_iff`).  So it is right
about a text when no digit of it is of another alphabet (`parse_rfc_iff`).
-/
import LiveProbe.JsonGrammar
import LiveProbe.Outcome

open JsString

namespace JvmJson

/-! ### Values -/

/-- What the parser makes: `null`, `Boolean`, `String`, `Long`, `BigDecimal`, `ArrayList`, `LinkedHashMap`. -/
inductive JavaValue
  | null
  | bool (b : Bool)
  | string (s : JsString)
  | long (n : ℤ)
  | decimal (unscaled scale : ℤ)
  | list (items : List JavaValue)
  | map (entries : List (JsString × JavaValue))

namespace JavaValue

mutual

/-- The value in JSON's terms. -/
def toJson : JavaValue → Json
  | null => .null
  | bool b => .bool b
  | string s => .str s
  | long n => .num n
  | decimal unscaled scale => .num (unscaled * 10 ^ (-scale))
  | list items => .arr (toJsonItems items)
  | map entries => .obj (toJsonEntries entries)

def toJsonItems : List JavaValue → List Json
  | [] => []
  | v :: items => v.toJson :: toJsonItems items

def toJsonEntries : List (JsString × JavaValue) → List (JsString × Json)
  | [] => []
  | (key, v) :: entries => (key, v.toJson) :: toJsonEntries entries

end

end JavaValue

/-! ### `Character` and the numbers of the library -/

/-- The zeros of the decimal digits below U+10000. -/
def zeros : List UInt16 :=
  [0x30, 0x660, 0x6F0, 0x7C0, 0x966, 0x9E6, 0xA66, 0xAE6, 0xB66, 0xBE6, 0xC66, 0xCE6, 0xD66, 0xDE6, 0xE50, 0xED0, 0xF20,
    0x1040, 0x1090, 0x17E0, 0x1810, 0x1946, 0x19D0, 0x1A80, 0x1A90, 0x1B50, 0x1BB0, 0x1C40, 0x1C50, 0xA620, 0xA8D0,
    0xA900, 0xA9D0, 0xA9F0, 0xAA50, 0xABF0, 0xFF10]

/-- `Character.digit(c, 10)` -/
def digit (c : UInt16) : Option ℕ :=
  (zeros.find? fun zero => zero ≤ c && c ≤ zero + 9).map fun zero => c.toNat - zero.toNat

/-- `Character.isDigit(c)` -/
def isDigit (c : UInt16) : Bool := (digit c).isSome

/-- `Character.digit(c, 16)` -/
def digit16 (c : UInt16) : Option ℕ :=
  match digit c with
  | some n => some n
  | none =>
    if 0x41 ≤ c ∧ c ≤ 0x46 then some (c.toNat - 0x37)
    else if 0x61 ≤ c ∧ c ≤ 0x66 then some (c.toNat - 0x57)
    else if 0xFF21 ≤ c ∧ c ≤ 0xFF26 then some (c.toNat - 0xFF17)
    else if 0xFF41 ≤ c ∧ c ≤ 0xFF46 then some (c.toNat - 0xFF37)
    else none

def intMax : ℤ := 2 ^ 31 - 1
def intMin : ℤ := -2 ^ 31
def longMax : ℤ := 2 ^ 63 - 1
def longMin : ℤ := -2 ^ 63

/-- A text without the sign at its front. -/
def unsigned (t : JsString) : Bool × JsString :=
  match t with
  | [] => (false, [])
  | c :: rest => if c = unit '-' then (true, rest) else if c = unit '+' then (false, rest) else (false, c :: rest)

/-- A text of digits with a sign, as a number. -/
def signedNumeral (t : JsString) : Option ℤ :=
  let (minus, digits) := unsigned t
  if digits ≠ [] ∧ digits.all isDigit then
    some (if minus then -(JsonGrammar.numeral digit digits) else JsonGrammar.numeral digit digits)
  else none

/-- `Long.valueOf(text)`; `none` is a `NumberFormatException`. -/
def longValueOf (t : JsString) : Option ℤ := (signedNumeral t).filter fun n => longMin ≤ n && n ≤ longMax

/-- Whether a `BigDecimal` can have so many digits after the point and this exponent. -/
def decimalFits (fraction : ℕ) (exponent : ℤ) : Bool :=
  -intMax ≤ exponent && exponent ≤ intMax && intMin ≤ fraction - exponent && fraction - exponent ≤ intMax

/-- The digits after a point, and what follows. -/
def fractionOf (t : JsString) : JsString × JsString :=
  match t with
  | [] => ([], [])
  | c :: rest => if c = unit '.' then (rest.takeWhile isDigit, rest.dropWhile isDigit) else ([], c :: rest)

/-- The exponent that ends a text. -/
def exponentOf (t : JsString) : Option ℤ :=
  match t with
  | [] => some 0
  | c :: rest => if c = unit 'e' ∨ c = unit 'E' then signedNumeral rest else none

/-- `new BigDecimal(text)`, the unscaled value and the scale; `none` is a `NumberFormatException`. -/
def newBigDecimal (t : JsString) : Option (ℤ × ℤ) :=
  let (minus, t) := unsigned t
  let int := t.takeWhile isDigit
  let (frac, t) := fractionOf (t.dropWhile isDigit)
  match exponentOf t with
  | none => none
  | some exponent =>
    if int ++ frac = [] ∨ !decimalFits frac.length exponent then none
    else
      let unscaled : ℤ := JsonGrammar.numeral digit (int ++ frac)
      some (if minus then -unscaled else unscaled, frac.length - exponent)

/-! ### The parser -/

/-- A `JsonException`: its message, and what was left of the input. -/
structure Failure where
  message : JsString
  rest : JsString

def error {α : Type} (message : String) (rest : JsString) : Except Failure α := .error ⟨js message, rest⟩

def skipWhitespace (rest : JsString) : JsString := rest.dropWhile JsonGrammar.isWs

/-- `consume` -/
def consume (expected : UInt16) (rest : JsString) : Option JsString :=
  match rest with
  | [] => none
  | c :: rest => if c = expected then some rest else none

/-- `require` -/
def require (expected : Char) (rest : JsString) : Except Failure JsString :=
  match consume (unit expected) rest with
  | some rest => .ok rest
  | none => .error ⟨js "expected '" ++ [unit expected] ++ js "'", rest⟩

/-- The loop of `parseUnicodeEscape`. -/
def parseHexDigits (rest : JsString) : JsString → ℕ → Except Failure (ℕ × JsString)
  | [], value => .ok (value, rest)
  | c :: units, value =>
    match digit16 c with
    | none => error "invalid unicode escape" (units ++ rest)
    | some n => parseHexDigits rest units (value * 16 + n)

def parseUnicodeEscape (rest : JsString) : Except Failure (ℕ × JsString) :=
  if rest.length < 4 then error "incomplete unicode escape" rest
  else parseHexDigits (rest.drop 4) (rest.take 4) 0

/-- The units that the escapes of `parseString` append, without `u`. -/
def escaped (e : UInt16) : Option UInt16 :=
  if e = unit '"' ∨ e = unit '\\' ∨ e = unit '/' then some e
  else if e = unit 'b' then some 0x08
  else if e = unit 'f' then some 0x0C
  else if e = unit 'n' then some 0x0A
  else if e = unit 'r' then some 0x0D
  else if e = unit 't' then some 0x09
  else none

/-- The loop of `parseString`. -/
def parseChars (result rest : JsString) : Except Failure (JsString × JsString) :=
  match rest with
  | [] => error "unterminated string" []
  | c :: rest =>
    if c = unit '"' then .ok (result, rest)
    else if c = unit '\\' then
      match rest with
      | [] => error "unterminated escape" []
      | e :: rest =>
        match escaped e with
        | some c => parseChars (result ++ [c]) rest
        | none =>
          if e = unit 'u' then
            match parseUnicodeEscape rest with
            | .error failure => .error failure
            | .ok (value, _) => parseChars (result ++ [value.toUInt16]) (rest.drop 4)
          else .error ⟨js "invalid escape: \\" ++ [e], rest⟩
    else if c < 0x20 then error "unescaped control character" rest
    else parseChars (result ++ [c]) rest
termination_by rest.length
decreasing_by all_goals simp_wf <;> omega

def parseString (rest : JsString) : Except Failure (JsString × JsString) := do
  let rest ← require '"' rest
  parseChars [] rest

def parseLiteral (literal : String) (value : JavaValue) (rest : JsString) : Except Failure (JavaValue × JsString) :=
  if (js literal).isPrefixOf rest then .ok (value, rest.drop (js literal).length) else error "invalid literal" rest

def requireDigits (rest : JsString) : Except Failure JsString :=
  if (rest.dropWhile isDigit).length = rest.length then error "expected a digit" rest else .ok (rest.dropWhile isDigit)

/-- The digits before the point. -/
def parseInt (rest : JsString) : Except Failure JsString :=
  match consume (unit '0') rest with
  | none => requireDigits rest
  | some rest => if rest.head?.any isDigit then error "leading zero in number" rest else .ok rest

/-- The point and the digits after it, when they are there. -/
def parseFraction (rest : JsString) : Except Failure (Bool × JsString) :=
  match consume (unit '.') rest with
  | none => .ok (false, rest)
  | some rest => (requireDigits rest).map fun rest => (true, rest)

/-- The sign of an exponent, when it is there. -/
def skipSign (rest : JsString) : JsString :=
  match rest with
  | [] => []
  | c :: after => if c = unit '+' ∨ c = unit '-' then after else c :: after

/-- The exponent, when it is there. -/
def parseExponent (rest : JsString) : Except Failure (Bool × JsString) :=
  match rest with
  | [] => .ok (false, [])
  | c :: after =>
    if c = unit 'e' ∨ c = unit 'E' then (requireDigits (skipSign after)).map fun rest => (true, rest)
    else .ok (false, c :: after)

/-- The number of a token: a `Long` if it can be one, or a `BigDecimal`. -/
def numberOf (decimal : Bool) (token : JsString) : Option JavaValue :=
  match if decimal then none else longValueOf token with
  | some n => some (.long n)
  | none => (newBigDecimal token).map fun d => .decimal d.1 d.2

def parseNumber (start : JsString) : Except Failure (JavaValue × JsString) := do
  let rest := (consume (unit '-') start).getD start
  if (consume (unit '-') start).isSome ∧ rest = [] then error "incomplete number" rest
  else do
    let rest ← parseInt rest
    let (fraction, rest) ← parseFraction rest
    let (exponent, rest) ← parseExponent rest
    match numberOf (fraction || exponent) (start.take (start.length - rest.length)) with
    | some n => .ok (n, rest)
    | none => error "invalid number" rest

mutual

/-- `parseValue`; `fuel` bounds the calls. -/
def parseValue : ℕ → JsString → Except Failure (JavaValue × JsString)
  | 0, rest => error "" rest
  | fuel + 1, rest =>
    match skipWhitespace rest with
    | [] => error "expected a value" []
    | c :: after =>
      if c = unit '{' then
        match consume (unit '}') (skipWhitespace after) with
        | some rest => .ok (.map [], rest)
        | none => parseMembers fuel [] (skipWhitespace after)
      else if c = unit '[' then
        match consume (unit ']') (skipWhitespace after) with
        | some rest => .ok (.list [], rest)
        | none => parseElements fuel [] (skipWhitespace after)
      else if c = unit '"' then (parseString (c :: after)).map fun p => (.string p.1, p.2)
      else if c = unit 't' then parseLiteral "true" (.bool true) (c :: after)
      else if c = unit 'f' then parseLiteral "false" (.bool false) (c :: after)
      else if c = unit 'n' then parseLiteral "null" .null (c :: after)
      else parseNumber (c :: after)

/-- The loop of `parseObject`. -/
def parseMembers : ℕ → List (JsString × JavaValue) → JsString → Except Failure (JavaValue × JsString)
  | 0, _, rest => error "" rest
  | fuel + 1, result, rest => do
    let rest := skipWhitespace rest
    if rest.head? ≠ some (unit '"') then error "expected an object key" rest
    else do
      let (key, rest) ← parseString rest
      let rest ← require ':' (skipWhitespace rest)
      let (value, rest) ← parseValue fuel rest
      if key ∈ result.map Prod.fst then .error ⟨js "duplicate object key: " ++ key, rest⟩
      else
        let rest := skipWhitespace rest
        match consume (unit '}') rest with
        | some rest => .ok (.map (result ++ [(key, value)]), rest)
        | none => do
          let rest ← require ',' rest
          parseMembers fuel (result ++ [(key, value)]) rest

/-- The loop of `parseArray`. -/
def parseElements : ℕ → List JavaValue → JsString → Except Failure (JavaValue × JsString)
  | 0, _, rest => error "" rest
  | fuel + 1, result, rest => do
    let (value, rest) ← parseValue fuel rest
    let rest := skipWhitespace rest
    match consume (unit ']') rest with
    | some rest => .ok (.list (result ++ [value]), rest)
    | none => do
      let rest ← require ',' rest
      parseElements fuel (result ++ [value]) rest

end

/-- `Json.parse`; a failure gives its message and where it is. -/
def parse (input : JsString) : Except JsString JavaValue :=
  let failed (failure : Failure) : JsString :=
    failure.message ++ js " at character " ++ decimal (input.length - failure.rest.length)
  match parseValue (2 * input.length + 1) input with
  | .error failure => .error (failed failure)
  | .ok (value, rest) =>
    if skipWhitespace rest = [] then .ok value
    else .error (failed ⟨js "unexpected trailing content", skipWhitespace rest⟩)

/-! ### White space and single units -/

open JsonGrammar

/-- The grammar as the parser reads it. -/
def java : Dialect := ⟨digit, digit16, fun fraction exponent => decimalFits fraction exponent = true, rfl⟩

/-- The grammar of RFC 8259, with the numbers that a `BigDecimal` can have. -/
def rfc : Dialect := ascii fun fraction exponent => decimalFits fraction exponent = true

theorem ws_skipWhitespace (s : JsString) : Ws s (skipWhitespace s) := by
  induction s with
  | nil => exact .nil
  | cons c s ih =>
    by_cases hc : isWs c = true
    · rw [skipWhitespace, List.dropWhile_cons_of_pos hc]
      exact .cons hc ih
    · rw [skipWhitespace, List.dropWhile_cons_of_neg hc]
      exact .nil

theorem skipWhitespace_of_ws {s r : JsString} (h : Ws s r) : skipWhitespace s = skipWhitespace r := by
  induction h with
  | nil => rfl
  | cons hc _ ih => rw [skipWhitespace, List.dropWhile_cons_of_pos hc]; exact ih

theorem skipWhitespace_cons {c : UInt16} (h : isWs c = false) (s : JsString) : skipWhitespace (c :: s) = c :: s :=
  List.dropWhile_cons_of_neg (by rw [h]; exact Bool.false_ne_true)

theorem skipWhitespace_idem (s : JsString) : skipWhitespace (skipWhitespace s) = skipWhitespace s :=
  (skipWhitespace_of_ws (ws_skipWhitespace s)).symm

/-- White space up to a unit that is none. -/
theorem skipWhitespace_eq {s r : JsString} {c : UInt16} (h : Ws s (c :: r)) (hc : isWs c = false) :
    skipWhitespace s = c :: r := (skipWhitespace_of_ws h).trans (skipWhitespace_cons hc r)

theorem consume_eq_some {c : UInt16} {s r : JsString} : consume c s = some r ↔ s = c :: r := by
  cases s with
  | nil => exact ⟨nofun, nofun⟩
  | cons c' s =>
    show (if c' = c then some s else none) = some r ↔ _
    rw [Option.ite_none_right_eq_some, Option.some.injEq, List.cons.injEq]

theorem consume_eq_none {c : UInt16} {s : JsString} : consume c s = none ↔ s.head? ≠ some c := by
  cases s with
  | nil => exact ⟨fun _ => nofun, fun _ => rfl⟩
  | cons c' s =>
    show (if c' = c then some s else none) = none ↔ some c' ≠ some c
    rw [ne_eq, Option.some.injEq]
    split
    · next hc => exact ⟨nofun, fun h => absurd hc h⟩
    · next hc => exact ⟨fun _ => hc, fun _ => rfl⟩

theorem require_eq_ok {c : Char} {s r : JsString} : require c s = .ok r ↔ s = unit c :: r := by
  rw [← consume_eq_some, require]
  cases consume (unit c) s with
  | none => exact ⟨nofun, nofun⟩
  | some r' =>
    show Except.ok r' = _ ↔ _
    rw [Except.ok.injEq, Option.some.injEq]

/-! ### Strings -/

theorem parseHexDigits_eq_ok {units rest r : JsString} {value v : ℕ} :
    parseHexDigits rest units value = .ok (v, r) ↔
      r = rest ∧ ∃ ns : List ℕ, units.map digit16 = ns.map some ∧ v = ns.foldl (fun value n => value * 16 + n) value := by
  induction units generalizing value with
  | nil =>
    rw [parseHexDigits, Except.ok.injEq, Prod.mk.injEq]
    constructor
    · rintro ⟨rfl, rfl⟩
      exact ⟨rfl, [], rfl, rfl⟩
    · rintro ⟨rfl, ns, hns, rfl⟩
      obtain rfl := List.map_eq_nil_iff.mp hns.symm
      exact ⟨rfl, rfl⟩
  | cons c units ih =>
    rw [parseHexDigits]
    cases hc : digit16 c with
    | none =>
      refine ⟨nofun, ?_⟩
      rintro ⟨rfl, ns, hns, rfl⟩
      cases ns with
      | nil => cases hns
      | cons n ns =>
        rw [List.map_cons, List.map_cons, hc] at hns
        cases (List.cons.inj hns).1
    | some n =>
      refine ih.trans (and_congr_right fun _ => ?_)
      constructor
      · rintro ⟨ns, hns, rfl⟩
        exact ⟨n :: ns, by rw [List.map_cons, List.map_cons, hc, hns], rfl⟩
      · rintro ⟨ns, hns, rfl⟩
        cases ns with
        | nil => cases hns
        | cons n' ns =>
          rw [List.map_cons, List.map_cons, hc] at hns
          obtain ⟨hn, htail⟩ := List.cons.inj hns
          cases hn
          exact ⟨ns, htail, rfl⟩

theorem parseUnicodeEscape_eq_ok {s r : JsString} {v : ℕ} :
    parseUnicodeEscape s = .ok (v, r) ↔ ∃ c₁ c₂ c₃ c₄ n₁ n₂ n₃ n₄, s = c₁ :: c₂ :: c₃ :: c₄ :: r ∧
      digit16 c₁ = some n₁ ∧ digit16 c₂ = some n₂ ∧ digit16 c₃ = some n₃ ∧ digit16 c₄ = some n₄ ∧
      v = ((n₁ * 16 + n₂) * 16 + n₃) * 16 + n₄ := by
  rw [parseUnicodeEscape]
  constructor
  · intro h
    split at h
    · cases h
    · next hlength =>
      obtain ⟨rfl, ns, hns, rfl⟩ := parseHexDigits_eq_ok.mp h
      obtain ⟨c₁, s, rfl⟩ := List.exists_cons_of_length_pos (l := s) (by omega)
      obtain ⟨c₂, s, rfl⟩ := List.exists_cons_of_length_pos (l := s) (by rw [List.length_cons] at hlength; omega)
      obtain ⟨c₃, s, rfl⟩ := List.exists_cons_of_length_pos (l := s) (by simp only [List.length_cons] at hlength; omega)
      obtain ⟨c₄, s, rfl⟩ := List.exists_cons_of_length_pos (l := s) (by simp only [List.length_cons] at hlength; omega)
      rcases ns with - | ⟨n₁, - | ⟨n₂, - | ⟨n₃, - | ⟨n₄, - | ⟨n₅, ns⟩⟩⟩⟩⟩ <;> simp at hns
      obtain ⟨h₁, h₂, h₃, h₄⟩ := hns
      exact ⟨c₁, c₂, c₃, c₄, n₁, n₂, n₃, n₄, rfl, h₁, h₂, h₃, h₄, by
        rw [List.foldl_cons, List.foldl_cons, List.foldl_cons, List.foldl_cons, List.foldl_nil, Nat.zero_mul,
          Nat.zero_add]⟩
  · rintro ⟨c₁, c₂, c₃, c₄, n₁, n₂, n₃, n₄, rfl, h₁, h₂, h₃, h₄, rfl⟩
    rw [if_neg (by simp only [List.length_cons]; omega)]
    refine parseHexDigits_eq_ok.mpr ⟨rfl, [n₁, n₂, n₃, n₄], ?_, ?_⟩
    · show [digit16 c₁, digit16 c₂, digit16 c₃, digit16 c₄] = _
      rw [h₁, h₂, h₃, h₄]
      rfl
    · rw [List.foldl_cons, List.foldl_cons, List.foldl_cons, List.foldl_cons, List.foldl_nil, Nat.zero_mul,
        Nat.zero_add]

theorem escaped_eq_unescape : escaped = unescape := rfl

theorem parseChars_cons (result : JsString) (c : UInt16) (s : JsString) :
    parseChars result (c :: s) =
      if c = unit '"' then .ok (result, s)
      else if c = unit '\\' then
        match s with
        | [] => error "unterminated escape" []
        | e :: s =>
          match escaped e with
          | some c => parseChars (result ++ [c]) s
          | none =>
            if e = unit 'u' then
              match parseUnicodeEscape s with
              | .error failure => .error failure
              | .ok (value, _) => parseChars (result ++ [value.toUInt16]) (s.drop 4)
            else .error ⟨js "invalid escape: \\" ++ [e], s⟩
      else if c < 0x20 then error "unescaped control character" s
      else parseChars (result ++ [c]) s := by
  rw [parseChars.eq_def]
  rfl

/-- What `parseString` reads after the quotation mark. -/
theorem parseChars_eq_ok {result s t r : JsString} :
    parseChars result s = .ok (t, r) ↔ ∃ u, t = result ++ u ∧ Chars digit16 s u r := by
  constructor
  · intro h
    induction hlength : s.length using Nat.strong_induction_on generalizing result s with
    | h n ih =>
      cases s with
      | nil =>
        rw [parseChars] at h
        cases h
      | cons c s =>
        -- one more unit was read, and the rest after it
        have hread : ∀ c' s', s'.length < n → parseChars (result ++ [c']) s' = .ok (t, r) →
            ∃ u, t = result ++ c' :: u ∧ Chars digit16 s' u r := by
          intro c' s' hlt h'
          obtain ⟨u, rfl, hu⟩ := ih _ hlt h' rfl
          exact ⟨u, by rw [List.append_assoc]; rfl, hu⟩
        rw [List.length_cons] at hlength
        rw [parseChars_cons] at h
        split at h
        · next hquote =>
          cases h
          exact ⟨[], (List.append_nil _).symm, hquote ▸ .close⟩
        · next hquote =>
          split at h
          · next hbackslash =>
            subst hbackslash
            cases s with
            | nil => cases h
            | cons e s =>
              rw [List.length_cons] at hlength
              simp only at h
              split at h
              · next c' he =>
                obtain ⟨u, ht, hu⟩ := hread c' s (by omega) h
                exact ⟨_, ht, .short he hu⟩
              · split at h
                · next hunicode =>
                  subst hunicode
                  split at h
                  · cases h
                  · next value rest hvalue =>
                    obtain ⟨c₁, c₂, c₃, c₄, n₁, n₂, n₃, n₄, rfl, h₁, h₂, h₃, h₄, rfl⟩ :=
                      parseUnicodeEscape_eq_ok.mp hvalue
                    simp only [List.length_cons] at hlength
                    obtain ⟨u, ht, hu⟩ := hread _ rest (by omega) h
                    exact ⟨_, ht, .unicode h₁ h₂ h₃ h₄ hu⟩
                · cases h
          · next hbackslash =>
            split at h
            · cases h
            · next hcontrol =>
              obtain ⟨u, ht, hu⟩ := hread c s (by omega) h
              exact ⟨_, ht, .plain (UInt16.not_lt.mp hcontrol) hquote hbackslash hu⟩
  · rintro ⟨u, rfl, h⟩
    induction h generalizing result with
    | close => rw [parseChars_cons, if_pos rfl, List.append_nil]
    | plain hc hquote hbackslash _ ih =>
      rw [parseChars_cons, if_neg hquote, if_neg hbackslash, if_neg (UInt16.not_lt.mpr hc), ih, List.append_assoc]
      rfl
    | short he _ ih =>
      rw [parseChars_cons, if_neg (by decide), if_pos rfl]
      simp only [escaped_eq_unescape, he]
      rw [ih, List.append_assoc]
      rfl
    | @unicode c₁ c₂ c₃ c₄ n₁ n₂ n₃ n₄ s t r h₁ h₂ h₃ h₄ _ ih =>
      rw [parseChars_cons, if_neg (by decide), if_pos rfl]
      have hvalue : parseUnicodeEscape (c₁ :: c₂ :: c₃ :: c₄ :: s) =
          .ok (((n₁ * 16 + n₂) * 16 + n₃) * 16 + n₄, s) :=
        parseUnicodeEscape_eq_ok.mpr ⟨c₁, c₂, c₃, c₄, n₁, n₂, n₃, n₄, rfl, h₁, h₂, h₃, h₄, rfl⟩
      simp only [show escaped (unit 'u') = none from rfl, if_true, hvalue, List.drop_succ_cons, List.drop_zero]
      rw [ih, List.append_assoc]
      rfl

theorem parseString_eq_ok {s t r : JsString} :
    parseString s = .ok (t, r) ↔ ∃ s', s = unit '"' :: s' ∧ Chars digit16 s' t r := by
  rw [parseString]
  constructor
  · intro h
    obtain ⟨s', hs, h⟩ := Outcome.bind_eq_ok.mp h
    obtain ⟨u, rfl, hu⟩ := parseChars_eq_ok.mp h
    exact ⟨s', require_eq_ok.mp hs, hu⟩
  · rintro ⟨s', rfl, hu⟩
    exact Outcome.bind_eq_ok.mpr ⟨s', require_eq_ok.mpr rfl, parseChars_eq_ok.mpr ⟨t, rfl, hu⟩⟩

/-! ### Digits -/

/-- No digit stands at the front. -/
def NoDigit (s : JsString) : Prop := ∀ c, s.head? = some c → isDigit c = false

theorem noDigit_nil : NoDigit [] := nofun

theorem noDigit_cons {c : UInt16} (h : isDigit c = false) (s : JsString) : NoDigit (c :: s) := by
  rintro c' ⟨rfl⟩
  exact h

theorem noDigit_dropWhile (s : JsString) : NoDigit (s.dropWhile isDigit) := by
  induction s with
  | nil => exact noDigit_nil
  | cons c s ih =>
    by_cases hc : isDigit c = true
    · rw [List.dropWhile_cons_of_pos hc]
      exact ih
    · rw [List.dropWhile_cons_of_neg hc]
      exact noDigit_cons (Bool.not_eq_true _ ▸ hc) s

theorem dropWhile_digits {ds s : JsString} (hds : ∀ c ∈ ds, isDigit c = true) (hs : NoDigit s) :
    (ds ++ s).dropWhile isDigit = s := by
  rw [List.dropWhile_append_of_pos hds]
  cases s with
  | nil => rfl
  | cons c s => exact List.dropWhile_cons_of_neg (by rw [hs c rfl]; exact Bool.false_ne_true)

theorem takeWhile_digits {ds s : JsString} (hds : ∀ c ∈ ds, isDigit c = true) (hs : NoDigit s) :
    (ds ++ s).takeWhile isDigit = ds := by
  rw [List.takeWhile_append_of_pos hds]
  cases s with
  | nil => exact List.append_nil ds
  | cons c s => rw [List.takeWhile_cons_of_neg (by rw [hs c rfl]; exact Bool.false_ne_true), List.append_nil]

theorem requireDigits_eq_ok {s r : JsString} :
    requireDigits s = .ok r ↔ ∃ ds, IsDigits digit ds ∧ s = ds ++ r ∧ NoDigit r := by
  rw [requireDigits]
  constructor
  · intro h
    split at h
    · cases h
    · next hlength =>
      cases h
      refine ⟨s.takeWhile isDigit, ⟨fun hnil => hlength ?_, fun c hc => show isDigit c = true from List.mem_takeWhile_imp hc⟩,
        List.takeWhile_append_dropWhile.symm, noDigit_dropWhile s⟩
      conv_rhs => rw [← List.takeWhile_append_dropWhile (p := isDigit) (l := s), hnil]
      rfl
  · rintro ⟨ds, hds, rfl, hr⟩
    rw [dropWhile_digits hds.2 hr, if_neg]
    rw [List.length_append]
    have hpos := List.length_pos_iff.mpr hds.1
    omega

/-- The digits of `parseInt`. -/
def IsInt (t : JsString) : Prop := t = [unit '0'] ∨ (IsDigits digit t ∧ t.head? ≠ some (unit '0'))

theorem head?_append_of_ne_nil {t r : JsString} (h : t ≠ []) : (t ++ r).head? = t.head? := by
  cases t with
  | nil => exact absurd rfl h
  | cons c t => rfl

theorem parseInt_eq_ok {s r : JsString} : parseInt s = .ok r ↔ ∃ t, IsInt t ∧ s = t ++ r ∧ NoDigit r := by
  rw [parseInt]
  constructor
  · intro h
    split at h
    · next hnone =>
      obtain ⟨ds, hds, rfl, hr⟩ := requireDigits_eq_ok.mp h
      refine ⟨ds, .inr ⟨hds, ?_⟩, rfl, hr⟩
      rw [← head?_append_of_ne_nil hds.1]
      exact consume_eq_none.mp hnone
    · next rest hsome =>
      split at h
      · cases h
      · next hdigit =>
        cases h
        refine ⟨[unit '0'], .inl rfl, consume_eq_some.mp hsome, fun c hc => ?_⟩
        rw [hc] at hdigit
        exact Bool.not_eq_true _ ▸ hdigit
  · rintro ⟨t, rfl | ⟨hds, hhead⟩, rfl, hr⟩
    · rw [show consume (unit '0') ([unit '0'] ++ r) = some r from consume_eq_some.mpr rfl]
      refine if_neg fun hany => ?_
      cases r with
      | nil => cases hany
      | cons c r => exact absurd (hr c rfl) (by rw [show isDigit c = true from hany]; exact nofun)
    · rw [consume_eq_none.mpr (by rw [head?_append_of_ne_nil hds.1]; exact hhead)]
      exact requireDigits_eq_ok.mpr ⟨t, hds, rfl, hr⟩

theorem parseFraction_eq_ok {s r : JsString} {b : Bool} :
    parseFraction s = .ok (b, r) ↔ ∃ f : Option JsString, b = f.isSome ∧
      (∀ ds, f = some ds → IsDigits digit ds ∧ NoDigit r) ∧ (f = none → s.head? ≠ some (unit '.')) ∧
      s = (f.map (unit '.' :: ·)).getD [] ++ r := by
  rw [parseFraction]
  constructor
  · intro h
    split at h
    · next hnone =>
      cases h
      exact ⟨none, rfl, nofun, fun _ => consume_eq_none.mp hnone, rfl⟩
    · next rest hsome =>
      obtain ⟨r', hr', hpair⟩ := Outcome.map_eq_ok.mp h
      cases hpair
      obtain ⟨ds, hds, rfl, hr⟩ := requireDigits_eq_ok.mp hr'
      refine ⟨some ds, rfl, fun ds' hds' => ?_, nofun, consume_eq_some.mp hsome⟩
      cases hds'
      exact ⟨hds, hr⟩
  · rintro ⟨f, rfl, hdigits, hnone, hs⟩
    cases f with
    | none =>
      subst hs
      rw [consume_eq_none.mpr (hnone rfl)]
      rfl
    | some ds =>
      obtain ⟨hds, hr⟩ := hdigits ds rfl
      rw [consume_eq_some.mpr hs]
      show (requireDigits (ds ++ r)).map _ = _
      rw [requireDigits_eq_ok.mpr ⟨ds, hds, rfl, hr⟩]
      rfl

/-- No exponent stands at the front. -/
def NoExponent (s : JsString) : Prop := ∀ c, s.head? = some c → ¬ (c = unit 'e' ∨ c = unit 'E')

/-- A sign of an exponent. -/
def IsSign (sign : Option UInt16) : Prop := ∀ c, sign = some c → c = unit '+' ∨ c = unit '-'

theorem skipSign_spec (s : JsString) : ∃ sign, IsSign sign ∧ s = sign.toList ++ skipSign s := by
  cases s with
  | nil => exact ⟨none, nofun, rfl⟩
  | cons c s =>
    by_cases hsign : c = unit '+' ∨ c = unit '-'
    · refine ⟨some c, fun c' hc' => ?_, ?_⟩
      · cases hc'
        exact hsign
      · rw [show skipSign (c :: s) = s from if_pos hsign]
        rfl
    · exact ⟨none, nofun, (show skipSign (c :: s) = c :: s from if_neg hsign).symm⟩

theorem not_sign_of_isDigit {c : UInt16} (h : isDigit c = true) : ¬ (c = unit '+' ∨ c = unit '-') := by
  rintro (rfl | rfl)
  · exact absurd h (by decide)
  · exact absurd h (by decide)

theorem exists_head_of_digits {ds : JsString} (h : IsDigits digit ds) : ∃ c t, ds = c :: t ∧ isDigit c = true := by
  cases ds with
  | nil => exact absurd rfl h.1
  | cons c t => exact ⟨c, t, rfl, h.2 c List.mem_cons_self⟩

theorem skipSign_append {sign : Option UInt16} {ds : JsString} (hsign : IsSign sign) (hds : IsDigits digit ds)
    (r : JsString) : skipSign (sign.toList ++ ds ++ r) = ds ++ r := by
  cases sign with
  | some c => exact if_pos (hsign c rfl)
  | none =>
    obtain ⟨c, t, rfl, hc⟩ := exists_head_of_digits hds
    exact if_neg (not_sign_of_isDigit hc)

theorem parseExponent_cons (c : UInt16) (after : JsString) :
    parseExponent (c :: after) =
      if c = unit 'e' ∨ c = unit 'E' then (requireDigits (skipSign after)).map fun rest => (true, rest)
      else .ok (false, c :: after) := rfl

theorem parseExponent_eq_ok {s r : JsString} {b : Bool} :
    parseExponent s = .ok (b, r) ↔ ∃ x : Option Exponent, b = x.isSome ∧
      (∀ e, x = some e → e.WellFormed digit ∧ NoDigit r) ∧ (x = none → NoExponent s) ∧
      s = (x.map Exponent.text).getD [] ++ r := by
  constructor
  · intro h
    cases s with
    | nil =>
      cases h
      exact ⟨none, rfl, nofun, fun _ => nofun, rfl⟩
    | cons c after =>
      rw [parseExponent_cons] at h
      split at h
      · next hmarker =>
        obtain ⟨r', hr', hpair⟩ := Outcome.map_eq_ok.mp h
        cases hpair
        obtain ⟨ds, hds, hs, hr⟩ := requireDigits_eq_ok.mp hr'
        obtain ⟨sign, hsign, hafter⟩ := skipSign_spec after
        refine ⟨some ⟨c, sign, ds⟩, rfl, fun e he => ?_, nofun, ?_⟩
        · cases he
          exact ⟨⟨hmarker, hsign, hds⟩, hr⟩
        · rw [hafter, hs, ← List.append_assoc]
          rfl
      · next hmarker =>
        cases h
        exact ⟨none, rfl, nofun, fun _ c' hc' => by cases hc'; exact hmarker, rfl⟩
  · rintro ⟨x, rfl, hwell, hnone, rfl⟩
    cases x with
    | none =>
      have hhead := hnone rfl
      cases r with
      | nil => rfl
      | cons c r => exact if_neg (hhead c rfl)
    | some e =>
      obtain ⟨⟨hmarker, hsign, hds⟩, hr⟩ := hwell e rfl
      show parseExponent (e.marker :: (e.sign.toList ++ e.digits ++ r)) = _
      rw [parseExponent_cons, if_pos hmarker, skipSign_append hsign hds, requireDigits_eq_ok.mpr ⟨e.digits, hds, rfl, hr⟩]
      rfl

/-! ### Numbers of tokens -/

theorem unsigned_digit {c : UInt16} (h : isDigit c = true) (t : JsString) : unsigned (c :: t) = (false, c :: t) := by
  show (if c = unit '-' then _ else if c = unit '+' then _ else _ : Bool × JsString) = _
  rw [if_neg fun hc => not_sign_of_isDigit h (.inr hc), if_neg fun hc => not_sign_of_isDigit h (.inl hc)]

theorem all_isDigit {ds : JsString} (h : IsDigits digit ds) : ds.all isDigit = true := List.all_eq_true.mpr h.2

theorem signedNumeral_exponent {x : Exponent} (h : x.WellFormed digit) :
    signedNumeral (x.sign.toList ++ x.digits) = some (x.value digit) := by
  obtain ⟨c, t, hds, hc⟩ := exists_head_of_digits h.digits
  rw [signedNumeral, Exponent.value]
  cases hsign : x.sign with
  | none =>
    rw [show (none : Option UInt16).toList ++ x.digits = c :: t from hds, unsigned_digit hc, ← hds]
    simp only
    rw [if_pos ⟨h.digits.1, all_isDigit h.digits⟩]
    rfl
  | some c' =>
    rcases h.sign c' hsign with rfl | rfl
    · rw [show unsigned ((some (unit '+')).toList ++ x.digits) = (false, x.digits) from rfl]
      simp only
      rw [if_pos ⟨h.digits.1, all_isDigit h.digits⟩]
      rfl
    · rw [show unsigned ((some (unit '-')).toList ++ x.digits) = (true, x.digits) from rfl]
      simp only
      rw [if_pos ⟨h.digits.1, all_isDigit h.digits⟩]

/-- The number a token becomes. -/
def javaNumber (n : Numeral) : JavaValue :=
  if n.frac = none ∧ n.exp = none ∧ longMin ≤ n.unscaled digit ∧ n.unscaled digit ≤ longMax then .long (n.unscaled digit)
  else .decimal (n.unscaled digit) ((n.frac.getD []).length - n.exponent digit)

theorem toJson_javaNumber (n : Numeral) : (javaNumber n).toJson = .num (n.value digit) := by
  rw [javaNumber]
  split
  · next h =>
    rw [JavaValue.toJson, Numeral.value, Numeral.exponent, h.1, h.2.1]
    simp
  · rw [JavaValue.toJson, Numeral.value, neg_sub]

theorem exists_head_of_isInt {t : JsString} (h : IsInt t) : ∃ c t', t = c :: t' ∧ isDigit c = true := by
  rcases h with rfl | h
  · exact ⟨_, _, rfl, by decide⟩
  · exact exists_head_of_digits h.1

theorem isDigit_of_isInt {t : JsString} (h : IsInt t) : ∀ c ∈ t, isDigit c = true := by
  rcases h with rfl | h
  · intro c hc
    rw [List.mem_singleton.mp hc]
    decide
  · exact h.1.2

/-- What follows the digits before the point. -/
def fractionText (n : Numeral) : JsString := (n.frac.map (unit '.' :: ·)).getD []

def exponentText (n : Numeral) : JsString := (n.exp.map Exponent.text).getD []

theorem unsigned_text {n : Numeral} (h : n.WellFormed digit) (r : JsString) :
    unsigned (n.text ++ r) = (n.minus, n.int ++ (fractionText n ++ (exponentText n ++ r))) := by
  obtain ⟨c, t, hint, hc⟩ := exists_head_of_isInt h.int
  have htext : n.text ++ r = (if n.minus then [unit '-'] else []) ++ (n.int ++ (fractionText n ++ (exponentText n ++ r))) := by
    rw [Numeral.text, fractionText, exponentText]
    simp only [List.append_assoc]
  rw [htext]
  cases n.minus with
  | true => rfl
  | false =>
    rw [hint]
    exact unsigned_digit hc _

section Token

variable {n : Numeral} {r : JsString}

theorem noDigit_exponentText (h : n.WellFormed digit) (hr : NoDigit r) : NoDigit (exponentText n ++ r) := by
  rw [exponentText]
  cases hexp : n.exp with
  | none => exact hr
  | some x =>
    refine noDigit_cons ?_ _
    rcases (h.exp x hexp).marker with hmarker | hmarker <;> rw [hmarker] <;> decide

theorem noDigit_fractionText (h : n.WellFormed digit) (hr : NoDigit r) :
    NoDigit (fractionText n ++ (exponentText n ++ r)) := by
  rw [fractionText]
  cases n.frac with
  | none => exact noDigit_exponentText h hr
  | some f => exact noDigit_cons (by decide) _

/-- The exponent's marker is no point. -/
theorem exponentText_head (h : n.WellFormed digit) : (exponentText n).head? ≠ some (unit '.') := by
  rw [exponentText]
  cases hexp : n.exp with
  | none => exact nofun
  | some x =>
    intro hhead
    have hpoint : x.marker = unit '.' := Option.some.inj hhead
    rcases (h.exp x hexp).marker with hmarker | hmarker <;> rw [hmarker] at hpoint <;> exact absurd hpoint (by decide)

theorem fractionOf_text (h : n.WellFormed digit) :
    fractionOf (fractionText n ++ exponentText n) = (n.frac.getD [], exponentText n) := by
  have hexp := exponentText_head h
  have hnoDigit := noDigit_exponentText h noDigit_nil
  rw [List.append_nil] at hnoDigit
  rw [fractionText]
  cases hfrac : n.frac with
  | none =>
    cases htext : exponentText n with
    | nil => rfl
    | cons c t => exact if_neg fun hc => hexp (by rw [htext, hc]; rfl)
  | some f =>
    show (List.takeWhile isDigit (f ++ exponentText n), List.dropWhile isDigit (f ++ exponentText n)) = _
    rw [takeWhile_digits (h.frac f hfrac).2 hnoDigit, dropWhile_digits (h.frac f hfrac).2 hnoDigit]
    rfl

theorem exponentOf_text (h : n.WellFormed digit) : exponentOf (exponentText n) = some (n.exponent digit) := by
  rw [exponentText, Numeral.exponent]
  cases hexp : n.exp with
  | none => rfl
  | some x =>
    have hx := h.exp x hexp
    exact (if_pos hx.marker).trans (signedNumeral_exponent hx)

theorem newBigDecimal_text (h : n.WellFormed digit) :
    newBigDecimal n.text = if decimalFits (n.frac.getD []).length (n.exponent digit) then
      some (n.unscaled digit, (n.frac.getD []).length - n.exponent digit) else none := by
  have hnoDigit := noDigit_fractionText h noDigit_nil
  have htext := unsigned_text h []
  rw [List.append_nil, List.append_nil] at htext
  rw [List.append_nil] at hnoDigit
  have hdigits : n.int ++ n.frac.getD [] ≠ [] := by
    obtain ⟨c, t, hint, -⟩ := exists_head_of_isInt h.int
    rw [hint]
    exact List.cons_ne_nil _ _
  rw [newBigDecimal, htext]
  simp only [takeWhile_digits (isDigit_of_isInt h.int) hnoDigit, dropWhile_digits (isDigit_of_isInt h.int) hnoDigit,
    fractionOf_text h, exponentOf_text h, hdigits, false_or]
  cases decimalFits (n.frac.getD []).length (n.exponent digit) <;> rfl

theorem longValueOf_text (h : n.WellFormed digit) (hfrac : n.frac = none) (hexp : n.exp = none) :
    longValueOf n.text = if longMin ≤ n.unscaled digit ∧ n.unscaled digit ≤ longMax then some (n.unscaled digit)
      else none := by
  have htext := unsigned_text h []
  rw [List.append_nil, fractionText, exponentText, hfrac, hexp] at htext
  have hint : (n.int ++ [] : JsString) = n.digits := by rw [Numeral.digits, hfrac]; rfl
  have htext' : unsigned n.text = (n.minus, n.digits) := htext.trans (congrArg (Prod.mk n.minus) hint)
  obtain ⟨c, t, hhead, -⟩ := exists_head_of_isInt h.int
  have hall : n.digits ≠ [] ∧ n.digits.all isDigit = true := by
    rw [← hint, List.append_nil]
    exact ⟨by rw [hhead]; exact List.cons_ne_nil _ _, List.all_eq_true.mpr (isDigit_of_isInt h.int)⟩
  have hsigned : signedNumeral n.text = some (n.unscaled digit) := by
    rw [signedNumeral, htext']
    exact if_pos hall
  rw [longValueOf, hsigned, Option.filter_some]
  simp only [Bool.and_eq_true, decide_eq_true_eq]

/-- What becomes of a token. -/
theorem numberOf_text (h : n.WellFormed digit) :
    numberOf (n.frac.isSome || n.exp.isSome) n.text =
      if decimalFits (n.frac.getD []).length (n.exponent digit) then some (javaNumber n) else none := by
  by_cases hlong : n.frac = none ∧ n.exp = none
  · obtain ⟨hfrac, hexp⟩ := hlong
    have hfits : decimalFits (n.frac.getD []).length (n.exponent digit) = true := by
      rw [Numeral.exponent, hfrac, hexp]
      decide
    have hof : (if (n.frac.isSome || n.exp.isSome) = true then none else longValueOf n.text) =
        if longMin ≤ n.unscaled digit ∧ n.unscaled digit ≤ longMax then some (n.unscaled digit) else none := by
      rw [hfrac, hexp]
      exact longValueOf_text h hfrac hexp
    rw [numberOf, hof, newBigDecimal_text h, if_pos hfits, if_pos hfits, javaNumber]
    by_cases hrange : longMin ≤ n.unscaled digit ∧ n.unscaled digit ≤ longMax
    · rw [if_pos hrange, if_pos ⟨hfrac, hexp, hrange⟩]
    · rw [if_neg hrange, if_neg fun hall => hrange hall.2.2]
      rfl
  · have hdecimal : (n.frac.isSome || n.exp.isSome) = true := by
      cases hfrac : n.frac with
      | some f => rfl
      | none =>
        cases hexp : n.exp with
        | some x => rfl
        | none => exact absurd ⟨hfrac, hexp⟩ hlong
    have hjava : javaNumber n = .decimal (n.unscaled digit) ((n.frac.getD []).length - n.exponent digit) :=
      if_neg fun hall => hlong ⟨hall.1, hall.2.1⟩
    rw [numberOf, hdecimal, if_pos rfl, newBigDecimal_text h, hjava]
    cases decimalFits (n.frac.getD []).length (n.exponent digit) <;> rfl

/-! ### Numbers -/

/-- The number ends where the digits do. -/
structure Ends (n : Numeral) (r : JsString) : Prop where
  digit : NoDigit r
  exp : n.exp = none → NoExponent r
  frac : n.frac = none → n.exp = none → r.head? ≠ some (unit '.')

theorem text_append (n : Numeral) (r : JsString) :
    n.text ++ r = (if n.minus then [unit '-'] else []) ++ (n.int ++ (fractionText n ++ (exponentText n ++ r))) := by
  rw [Numeral.text, fractionText, exponentText]
  simp only [List.append_assoc]

/-- What `parseNumber` reads after a sign. -/
theorem parseNumber_parts {s : JsString} {fraction exponent : Bool} {s₁ s₂ : JsString} (hint : parseInt s = .ok s₁)
    (hfrac : parseFraction s₁ = .ok (fraction, s₂)) (hexp : parseExponent s₂ = .ok (exponent, r)) (minus : Bool) :
    ∃ n : Numeral, n.minus = minus ∧ n.WellFormed digit ∧ (fraction || exponent) = (n.frac.isSome || n.exp.isSome) ∧
      s = n.int ++ (fractionText n ++ (exponentText n ++ r)) ∧ Ends n r := by
  obtain ⟨int, hdigits, rfl, hnoDigit₁⟩ := parseInt_eq_ok.mp hint
  obtain ⟨frac, rfl, hfracDigits, hnoPoint, rfl⟩ := parseFraction_eq_ok.mp hfrac
  obtain ⟨exp, rfl, hexpDigits, hnoExponent, rfl⟩ := parseExponent_eq_ok.mp hexp
  refine ⟨⟨minus, int, frac, exp⟩, rfl, ⟨hdigits, fun f hf => (hfracDigits f hf).1, fun x hx => (hexpDigits x hx).1⟩, rfl,
    rfl, ?_, fun hnone => ?_, fun hnone hnone' => ?_⟩
  · cases exp with
    | some x => exact (hexpDigits x rfl).2
    | none =>
      cases frac with
      | some f => exact (hfracDigits f rfl).2
      | none => exact hnoDigit₁
  · cases hnone
    exact hnoExponent rfl
  · cases hnone
    cases hnone'
    exact hnoPoint rfl

/-- `parseNumber` after the sign, with the text of the whole number. -/
theorem parseNumber_after {start : JsString} (minus : Bool) (s : JsString) {v : JavaValue}
    (hstart : start = (if minus then [unit '-'] else []) ++ s) :
    (do
      let rest ← parseInt s
      let (fraction, rest) ← parseFraction rest
      let (exponent, rest) ← parseExponent rest
      match numberOf (fraction || exponent) (start.take (start.length - rest.length)) with
      | some n => Except.ok (n, rest)
      | none => error "invalid number" rest) = .ok (v, r) ↔
    ∃ n : Numeral, n.minus = minus ∧ n.WellFormed digit ∧
      decimalFits (n.frac.getD []).length (n.exponent digit) = true ∧ start = n.text ++ r ∧ v = javaNumber n ∧
      Ends n r := by
  have htoken : ∀ n : Numeral, start = n.text ++ r → start.take (start.length - r.length) = n.text := by
    rintro n rfl
    rw [List.length_append, Nat.add_sub_cancel]
    exact List.take_left
  constructor
  · intro h
    obtain ⟨s₁, hint, h⟩ := Outcome.bind_eq_ok.mp h
    obtain ⟨⟨fraction, s₂⟩, hfrac, h⟩ := Outcome.bind_eq_ok.mp h
    obtain ⟨⟨exponent, s₃⟩, hexp, h⟩ := Outcome.bind_eq_ok.mp h
    simp only at h
    split at h
    · next n' hnumber =>
      cases h
      obtain ⟨n, rfl, hn, hdecimal, rfl, hends⟩ := parseNumber_parts hint hfrac hexp minus
      have hall : start = n.text ++ r := hstart.trans (text_append n r).symm
      rw [htoken n hall, hdecimal, numberOf_text hn, Option.ite_none_right_eq_some, Option.some.injEq] at hnumber
      exact ⟨n, rfl, hn, hnumber.1, hall, hnumber.2.symm, hends⟩
    · cases h
  · rintro ⟨n, rfl, hn, hfits, hall, rfl, hends⟩
    have hs : s = n.int ++ (fractionText n ++ (exponentText n ++ r)) :=
      List.append_cancel_left (hstart.symm.trans (hall.trans (text_append n r)))
    have hint : parseInt s = .ok (fractionText n ++ (exponentText n ++ r)) :=
      parseInt_eq_ok.mpr ⟨n.int, hn.int, hs, noDigit_fractionText hn hends.digit⟩
    have hfrac : parseFraction (fractionText n ++ (exponentText n ++ r)) = .ok (n.frac.isSome, exponentText n ++ r) := by
      refine parseFraction_eq_ok.mpr ⟨n.frac, rfl, fun f hf => ⟨hn.frac f hf, noDigit_exponentText hn hends.digit⟩,
        fun hnone => ?_, rfl⟩
      rw [fractionText, hnone]
      show (exponentText n ++ r).head? ≠ _
      cases hexp : n.exp with
      | none =>
        rw [exponentText, hexp]
        exact hends.frac hnone hexp
      | some x =>
        have hhead := exponentText_head hn
        rw [exponentText, hexp] at hhead ⊢
        exact hhead
    have hexp : parseExponent (exponentText n ++ r) = .ok (n.exp.isSome, r) := by
      refine parseExponent_eq_ok.mpr ⟨n.exp, rfl, fun x hx => ⟨hn.exp x hx, hends.digit⟩, fun hnone => ?_, rfl⟩
      rw [exponentText, hnone]
      exact hends.exp hnone
    refine Outcome.bind_eq_ok.mpr ⟨_, hint, Outcome.bind_eq_ok.mpr ⟨_, hfrac, Outcome.bind_eq_ok.mpr ⟨_, hexp, ?_⟩⟩⟩
    simp only [htoken n hall, numberOf_text hn, hfits, if_true]

theorem minus_iff (h : n.WellFormed digit) (r : JsString) :
    n.minus = true ↔ (n.text ++ r).head? = some (unit '-') := by
  rw [text_append]
  cases n.minus with
  | true => exact ⟨fun _ => rfl, fun _ => rfl⟩
  | false =>
    obtain ⟨c, t, hint, hc⟩ := exists_head_of_isInt h.int
    rw [hint]
    refine ⟨nofun, fun hhead => ?_⟩
    exact absurd (.inr (Option.some.inj hhead)) (not_sign_of_isDigit hc)

theorem parseNumber_eq_ok {s : JsString} {v : JavaValue} :
    parseNumber s = .ok (v, r) ↔ ∃ n : Numeral, n.WellFormed digit ∧
      decimalFits (n.frac.getD []).length (n.exponent digit) = true ∧ s = n.text ++ r ∧ v = javaNumber n ∧ Ends n r := by
  have hforget : ∀ minus : Bool, (∀ n : Numeral, n.WellFormed digit → s = n.text ++ r → n.minus = minus) →
      ((∃ n : Numeral, n.minus = minus ∧ n.WellFormed digit ∧
        decimalFits (n.frac.getD []).length (n.exponent digit) = true ∧ s = n.text ++ r ∧ v = javaNumber n ∧ Ends n r) ↔
      ∃ n : Numeral, n.WellFormed digit ∧
        decimalFits (n.frac.getD []).length (n.exponent digit) = true ∧ s = n.text ++ r ∧ v = javaNumber n ∧ Ends n r) := by
    intro minus hminus
    constructor
    · rintro ⟨n, -, hn⟩
      exact ⟨n, hn⟩
    · rintro ⟨n, hn, hfits, hs, hrest⟩
      exact ⟨n, hminus n hn hs, hn, hfits, hs, hrest⟩
  unfold parseNumber
  cases hminus : consume (unit '-') s with
  | some s' =>
    obtain rfl := consume_eq_some.mp hminus
    have hneg : ∀ n : Numeral, n.WellFormed digit → unit '-' :: s' = n.text ++ r → n.minus = true :=
      fun n hn hs => (minus_iff hn r).mpr (hs ▸ rfl)
    by_cases hnil : s' = []
    · subst hnil
      refine ⟨nofun, ?_⟩
      rintro ⟨n, hn, -, hs, -⟩
      obtain ⟨c, t, hint, -⟩ := exists_head_of_isInt hn.int
      have hminus' := hneg n hn hs
      rw [text_append, hminus', hint] at hs
      cases hs
    · refine Iff.trans (Iff.trans ?_ (parseNumber_after true s' rfl)) (hforget true hneg)
      show (if _ ∧ s' = [] then _ else _) = _ ↔ _
      rw [if_neg fun hboth => hnil hboth.2]
      rfl
  | none =>
    have hneg : ∀ n : Numeral, n.WellFormed digit → s = n.text ++ r → n.minus = false := by
      intro n hn hs
      refine Bool.eq_false_iff.mpr fun hminus' => ?_
      rw [minus_iff hn r, ← hs] at hminus'
      exact consume_eq_none.mp hminus hminus'
    refine Iff.trans (Iff.trans ?_ (parseNumber_after false s rfl)) (hforget false hneg)
    show (if false = true ∧ _ then _ else _) = _ ↔ _
    rw [if_neg fun hboth => Bool.false_ne_true hboth.1]
    rfl

end Token

/-! ### Values -/

theorem parseLiteral_eq_ok {literal : String} {value v : JavaValue} {s r : JsString} :
    parseLiteral literal value s = .ok (v, r) ↔ v = value ∧ s = js literal ++ r := by
  rw [parseLiteral]
  constructor
  · intro h
    split at h
    · next hprefix =>
      cases h
      exact ⟨rfl, (List.prefix_iff_eq_append.mp (List.isPrefixOf_iff_prefix.mp hprefix)).symm⟩
    · cases h
  · rintro ⟨rfl, rfl⟩
    rw [if_pos (List.isPrefixOf_iff_prefix.mpr (List.prefix_append _ _)), List.drop_left]

theorem map_fst_toJsonEntries (entries : List (JsString × JavaValue)) :
    (JavaValue.toJsonEntries entries).map Prod.fst = entries.map Prod.fst := by
  induction entries with
  | nil => rfl
  | cons e entries ih =>
    rw [JavaValue.toJsonEntries, List.map_cons, List.map_cons, ih]

theorem parseValue_succ (fuel : ℕ) (s : JsString) :
    parseValue (fuel + 1) s =
      match skipWhitespace s with
      | [] => error "expected a value" []
      | c :: after =>
        if c = unit '{' then
          match consume (unit '}') (skipWhitespace after) with
          | some rest => .ok (.map [], rest)
          | none => parseMembers fuel [] (skipWhitespace after)
        else if c = unit '[' then
          match consume (unit ']') (skipWhitespace after) with
          | some rest => .ok (.list [], rest)
          | none => parseElements fuel [] (skipWhitespace after)
        else if c = unit '"' then (parseString (c :: after)).map fun p => (.string p.1, p.2)
        else if c = unit 't' then parseLiteral "true" (.bool true) (c :: after)
        else if c = unit 'f' then parseLiteral "false" (.bool false) (c :: after)
        else if c = unit 'n' then parseLiteral "null" .null (c :: after)
        else parseNumber (c :: after) := by
  rw [parseValue]

mutual

/-- What is read as a value is one. -/
theorem parseValue_sound : ∀ (fuel : ℕ) {s r : JsString} {v : JavaValue}, parseValue fuel s = .ok (v, r) →
    ∃ s₁, Ws s s₁ ∧ Value java s₁ v.toJson r
  | 0, _, _, _, h => by cases h
  | fuel + 1, s, r, v, h => by
    rw [parseValue_succ] at h
    have hw := ws_skipWhitespace s
    cases hs : skipWhitespace s with
    | nil =>
      rw [hs] at h
      cases h
    | cons c after =>
      rw [hs] at h hw
      refine ⟨c :: after, hw, ?_⟩
      simp only at h
      split at h
      · next hc =>
        subst hc
        split at h
        · next hclose =>
          cases h
          exact .emptyObject (consume_eq_some.mp hclose ▸ ws_skipWhitespace after)
        · obtain ⟨entries, rfl, hentries, hkeys⟩ := parseMembers_sound fuel h List.nodup_nil
          refine .object (hentries.of_ws (ws_skipWhitespace after)) ?_
          rw [map_fst_toJsonEntries]
          exact hkeys
      split at h
      · next hc =>
        subst hc
        split at h
        · next hclose =>
          cases h
          exact .emptyArray (consume_eq_some.mp hclose ▸ ws_skipWhitespace after)
        · obtain ⟨items, rfl, hitems⟩ := parseElements_sound fuel h
          exact .array (hitems.of_ws (ws_skipWhitespace after))
      split at h
      · obtain ⟨⟨t, r'⟩, ht, hpair⟩ := Outcome.map_eq_ok.mp h
        cases hpair
        obtain ⟨s', hs', hchars⟩ := parseString_eq_ok.mp ht
        rw [hs']
        exact .string hchars
      split at h
      · obtain ⟨rfl, hs'⟩ := parseLiteral_eq_ok.mp h
        rw [hs']
        exact .true
      split at h
      · obtain ⟨rfl, hs'⟩ := parseLiteral_eq_ok.mp h
        rw [hs']
        exact .false
      split at h
      · obtain ⟨rfl, hs'⟩ := parseLiteral_eq_ok.mp h
        rw [hs']
        exact .null
      · obtain ⟨n, hn, hfits, hs', rfl, -⟩ := parseNumber_eq_ok.mp h
        rw [toJson_javaNumber]
        exact .number ⟨n, hn, hfits, hs', rfl⟩

theorem parseMembers_sound : ∀ (fuel : ℕ) {result : List (JsString × JavaValue)} {s r : JsString} {v : JavaValue},
    parseMembers fuel result s = .ok (v, r) → (result.map Prod.fst).Nodup →
      ∃ entries, v = .map (result ++ entries) ∧ Members java s (JavaValue.toJsonEntries entries) r ∧
        ((result ++ entries).map Prod.fst).Nodup
  | 0, _, _, _, _, h, _ => by cases h
  | fuel + 1, result, s, r, v, h, hresult => by
    rw [parseMembers] at h
    have hw := ws_skipWhitespace s
    simp only at h
    split at h
    · cases h
    obtain ⟨⟨key, s₂⟩, hkey, h⟩ := Outcome.bind_eq_ok.mp h
    obtain ⟨s₁, hs₁, hchars⟩ := parseString_eq_ok.mp hkey
    obtain ⟨s₃, hcolon, h⟩ := Outcome.bind_eq_ok.mp h
    obtain ⟨⟨value, s₅⟩, hvalue, h⟩ := Outcome.bind_eq_ok.mp h
    obtain ⟨s₄, hw₄, hvalue⟩ := parseValue_sound fuel hvalue
    have hw₂ := require_eq_ok.mp hcolon ▸ ws_skipWhitespace s₂
    have hw₅ := ws_skipWhitespace s₅
    rw [hs₁] at hw
    simp only at h
    split at h
    · cases h
    next hfresh =>
    have hkeys : ((result ++ [(key, value)]).map Prod.fst).Nodup := by
      rw [List.map_append]
      exact List.concat_eq_append ▸ hresult.concat hfresh
    split at h
    · next hclose =>
      cases h
      exact ⟨[(key, value)], rfl, .last hw hchars hw₂ hw₄ hvalue (consume_eq_some.mp hclose ▸ hw₅), hkeys⟩
    · obtain ⟨s₆, hcomma, h⟩ := Outcome.bind_eq_ok.mp h
      obtain ⟨entries, rfl, hentries, hnodup⟩ := parseMembers_sound fuel h hkeys
      have happend : result ++ [(key, value)] ++ entries = result ++ (key, value) :: entries := by
        rw [List.append_assoc]
        rfl
      exact ⟨(key, value) :: entries, congrArg _ happend,
        .more hw hchars hw₂ hw₄ hvalue (require_eq_ok.mp hcomma ▸ hw₅) hentries, happend ▸ hnodup⟩

theorem parseElements_sound : ∀ (fuel : ℕ) {result : List JavaValue} {s r : JsString} {v : JavaValue},
    parseElements fuel result s = .ok (v, r) →
      ∃ items, v = .list (result ++ items) ∧ Elements java s (JavaValue.toJsonItems items) r
  | 0, _, _, _, _, h => by cases h
  | fuel + 1, result, s, r, v, h => by
    rw [parseElements] at h
    obtain ⟨⟨value, s₂⟩, hvalue, h⟩ := Outcome.bind_eq_ok.mp h
    obtain ⟨s₁, hw, hvalue⟩ := parseValue_sound fuel hvalue
    have hw' := ws_skipWhitespace s₂
    simp only at h
    split at h
    · next hclose =>
      cases h
      exact ⟨[value], rfl, .last hw hvalue (consume_eq_some.mp hclose ▸ hw')⟩
    · obtain ⟨s₃, hcomma, h⟩ := Outcome.bind_eq_ok.mp h
      obtain ⟨items, rfl, hitems⟩ := parseElements_sound fuel h
      exact ⟨value :: items, by rw [List.append_assoc]; rfl, .more hw hvalue (require_eq_ok.mp hcomma ▸ hw') hitems⟩

end

/-! ### Every value is read -/

/-- What may follow a value: nothing, white space, or what ends an item. -/
def Follow (r : JsString) : Prop :=
  ∀ c, r.head? = some c → isWs c = true ∨ c = unit ',' ∨ c = unit ']' ∨ c = unit '}'

theorem follow_of_ws_nil {r : JsString} (h : Ws r []) : Follow r := by
  rintro c hc
  cases h with
  | nil => cases hc
  | cons hws _ =>
    cases hc
    exact .inl hws

theorem follow_of_ws {c : UInt16} {r r' : JsString} (h : Ws r (c :: r'))
    (hc : c = unit ',' ∨ c = unit ']' ∨ c = unit '}') : Follow r := by
  rintro c' hc'
  cases h with
  | nil =>
    cases hc'
    exact .inr hc
  | cons hws _ =>
    cases hc'
    exact .inl hws

theorem isWs_iff {c : UInt16} : isWs c = true ↔ c = unit ' ' ∨ c = unit '\n' ∨ c = unit '\r' ∨ c = unit '\t' := by
  rw [isWs, Bool.or_eq_true, Bool.or_eq_true, Bool.or_eq_true, decide_eq_true_eq, decide_eq_true_eq, decide_eq_true_eq,
    decide_eq_true_eq, or_assoc, or_assoc]

/-- What may follow a value goes on with no number. -/
theorem Follow.ends {r : JsString} (h : Follow r) (n : Numeral) : Ends n r := by
  have hunits : ∀ c, r.head? = some c → isDigit c = false ∧ ¬ (c = unit 'e' ∨ c = unit 'E') ∧ c ≠ unit '.' := by
    intro c hc
    rcases h c hc with hws | rfl | rfl | rfl
    · rcases isWs_iff.mp hws with rfl | rfl | rfl | rfl <;> decide
    all_goals decide
  exact ⟨fun c hc => (hunits c hc).1, fun _ c hc => (hunits c hc).2.1, fun _ _ hpoint => (hunits _ hpoint).2.2 rfl⟩

/-- How a number begins. -/
theorem exists_head_of_number {s r : JsString} {q : ℚ} (h : Number java s q r) :
    ∃ c t, s = c :: t ∧ (c = unit '-' ∨ isDigit c = true) := by
  obtain ⟨n, hn, -, rfl, -⟩ := h
  obtain ⟨c, t, hint, hc⟩ := exists_head_of_isInt hn.int
  rw [text_append, hint]
  cases n.minus with
  | true => exact ⟨_, _, rfl, .inl rfl⟩
  | false => exact ⟨_, _, rfl, .inr hc⟩

/-- How a number does not begin. -/
theorem not_number_head {c c' : UInt16} (h : c = unit '-' ∨ isDigit c = true)
    (hc' : c' ≠ unit '-' ∧ isDigit c' = false) : c ≠ c' := by
  rintro rfl
  rcases h with h | h
  · exact hc'.1 h
  · exact Bool.false_ne_true (hc'.2.symm.trans h)

/-- How a value begins. -/
theorem exists_head_of_value {s r : JsString} {v : Json} (h : Value java s v r) :
    ∃ c t, s = c :: t ∧ isWs c = false ∧ c ≠ unit ']' := by
  cases h with
  | number hq =>
    obtain ⟨c, t, rfl, hc⟩ := exists_head_of_number hq
    refine ⟨c, t, rfl, Bool.eq_false_iff.mpr fun hws => ?_, not_number_head hc (by decide)⟩
    rcases isWs_iff.mp hws with h | h | h | h <;> exact not_number_head hc (by decide) h
  | null => exact ⟨_, _, rfl, by decide⟩
  | true => exact ⟨_, _, rfl, by decide⟩
  | false => exact ⟨_, _, rfl, by decide⟩
  | string _ => exact ⟨_, _, rfl, by decide⟩
  | emptyArray _ => exact ⟨_, _, rfl, by decide⟩
  | array _ => exact ⟨_, _, rfl, by decide⟩
  | emptyObject _ => exact ⟨_, _, rfl, by decide⟩
  | object _ _ => exact ⟨_, _, rfl, by decide⟩

/-- White space up to a value. -/
theorem skipWhitespace_value {s s₁ r : JsString} {v : Json} (hw : Ws s s₁) (h : Value java s₁ v r) :
    skipWhitespace s = s₁ := by
  obtain ⟨c, t, rfl, hc, -⟩ := exists_head_of_value h
  exact skipWhitespace_eq hw hc

/-- The loop of `parseObject` on one member. -/
theorem parseMembers_step {fuel : ℕ} {result : List (JsString × JavaValue)} {s₀ s₁ s₂ s₃ s₅ key : JsString}
    {value : JavaValue} (hquote : skipWhitespace s₀ = unit '"' :: s₁) (hkey : Chars digit16 s₁ key s₂)
    (hcolon : skipWhitespace s₂ = unit ':' :: s₃) (hvalue : parseValue fuel s₃ = .ok (value, s₅))
    (hfresh : key ∉ result.map Prod.fst) :
    parseMembers (fuel + 1) result s₀ =
      match consume (unit '}') (skipWhitespace s₅) with
      | some rest => .ok (.map (result ++ [(key, value)]), rest)
      | none => require ',' (skipWhitespace s₅) >>= fun rest => parseMembers fuel (result ++ [(key, value)]) rest := by
  rw [parseMembers]
  simp only [hquote]
  rw [if_neg (by rw [List.head?_cons]; exact fun h => h rfl), parseString_eq_ok.mpr ⟨s₁, rfl, hkey⟩]
  show (require ':' (skipWhitespace s₂) >>= _) = _
  rw [hcolon, require_eq_ok.mpr rfl]
  show (parseValue fuel s₃ >>= _) = _
  rw [hvalue]
  show (if key ∈ result.map Prod.fst then _ else _) = _
  rw [if_neg hfresh]

/-- The loop of `parseArray` on one item. -/
theorem parseElements_step {fuel : ℕ} {result : List JavaValue} {s₀ s₂ : JsString} {value : JavaValue}
    (hvalue : parseValue fuel s₀ = .ok (value, s₂)) :
    parseElements (fuel + 1) result s₀ =
      match consume (unit ']') (skipWhitespace s₂) with
      | some rest => .ok (.list (result ++ [value]), rest)
      | none => require ',' (skipWhitespace s₂) >>= fun rest => parseElements fuel (result ++ [value]) rest := by
  rw [parseElements, hvalue]
  rfl

theorem parseValue_number {fuel : ℕ} {s₀ s r : JsString} {q : ℚ} (h : Number java s q r) (hr : Follow r)
    (hs : skipWhitespace s₀ = s) : ∃ w : JavaValue, w.toJson = .num q ∧ parseValue (fuel + 1) s₀ = .ok (w, r) := by
  obtain ⟨c, t, rfl, hc⟩ := exists_head_of_number h
  obtain ⟨n, hn, hfits, htext, rfl⟩ := h
  refine ⟨javaNumber n, toJson_javaNumber n, ?_⟩
  rw [parseValue_succ, hs]
  simp only
  rw [if_neg (not_number_head hc (by decide)), if_neg (not_number_head hc (by decide)),
    if_neg (not_number_head hc (by decide)), if_neg (not_number_head hc (by decide)),
    if_neg (not_number_head hc (by decide)), if_neg (not_number_head hc (by decide))]
  exact parseNumber_eq_ok.mpr ⟨n, hn, hfits, htext, rfl, hr.ends n⟩

theorem length_of_skipWhitespace {s r : JsString} {c : UInt16} (h : skipWhitespace s = c :: r) :
    r.length + 1 ≤ s.length := by
  have hle := (ws_skipWhitespace s).length_le
  rwa [h, List.length_cons] at hle

theorem length_of_member {s₀ s₁ s₂ s₃ key : JsString} (hquote : skipWhitespace s₀ = unit '"' :: s₁)
    (hkey : Chars digit16 s₁ key s₂) (hcolon : skipWhitespace s₂ = unit ':' :: s₃) : s₃.length + 2 ≤ s₀.length := by
  have h := length_of_skipWhitespace hquote
  have h' := hkey.length_le
  have h'' := length_of_skipWhitespace hcolon
  omega

theorem exists_fuel {n fuel : ℕ} (h : n + 1 ≤ fuel) : ∃ fuel', fuel = fuel' + 1 ∧ n ≤ fuel' :=
  ⟨fuel - 1, by omega, by omega⟩

theorem parseValue_null {fuel : ℕ} {s r : JsString} (h : skipWhitespace s = js "null" ++ r) :
    parseValue (fuel + 1) s = .ok (.null, r) := by
  rw [parseValue_succ, h]
  show parseLiteral "null" .null (js "null" ++ r) = _
  exact parseLiteral_eq_ok.mpr ⟨rfl, rfl⟩

theorem parseValue_true {fuel : ℕ} {s r : JsString} (h : skipWhitespace s = js "true" ++ r) :
    parseValue (fuel + 1) s = .ok (.bool true, r) := by
  rw [parseValue_succ, h]
  show parseLiteral "true" (.bool true) (js "true" ++ r) = _
  exact parseLiteral_eq_ok.mpr ⟨rfl, rfl⟩

theorem parseValue_false {fuel : ℕ} {s r : JsString} (h : skipWhitespace s = js "false" ++ r) :
    parseValue (fuel + 1) s = .ok (.bool false, r) := by
  rw [parseValue_succ, h]
  show parseLiteral "false" (.bool false) (js "false" ++ r) = _
  exact parseLiteral_eq_ok.mpr ⟨rfl, rfl⟩

theorem parseValue_string {fuel : ℕ} {s s' t r : JsString} (h : skipWhitespace s = unit '"' :: s')
    (ht : Chars digit16 s' t r) : parseValue (fuel + 1) s = .ok (.string t, r) := by
  rw [parseValue_succ, h]
  exact Outcome.map_eq_ok.mpr ⟨_, parseString_eq_ok.mpr ⟨_, rfl, ht⟩, rfl⟩

theorem parseValue_bracket {fuel : ℕ} {s after : JsString} (h : skipWhitespace s = unit '[' :: after) :
    parseValue (fuel + 1) s =
      match consume (unit ']') (skipWhitespace after) with
      | some rest => .ok (.list [], rest)
      | none => parseElements fuel [] (skipWhitespace after) := by
  rw [parseValue_succ, h]
  rfl

theorem parseValue_brace {fuel : ℕ} {s after : JsString} (h : skipWhitespace s = unit '{' :: after) :
    parseValue (fuel + 1) s =
      match consume (unit '}') (skipWhitespace after) with
      | some rest => .ok (.map [], rest)
      | none => parseMembers fuel [] (skipWhitespace after) := by
  rw [parseValue_succ, h]
  rfl

theorem not_bracket_of_elements {s r : JsString} {items : List Json} (h : Elements java s items r) :
    consume (unit ']') (skipWhitespace s) = none := by
  have hbegin : ∀ {s₁ s₂ : JsString} {v : Json}, Ws s s₁ → Value java s₁ v s₂ →
      consume (unit ']') (skipWhitespace s) = none := by
    intro s₁ s₂ v hw hv
    obtain ⟨c, t, rfl, hc, hbracket⟩ := exists_head_of_value hv
    rw [skipWhitespace_eq hw hc]
    exact consume_eq_none.mpr fun hhead => hbracket (Option.some.inj hhead)
  cases h with
  | last hw hv _ => exact hbegin hw hv
  | more hw hv _ _ => exact hbegin hw hv

theorem not_brace_of_members {s r : JsString} {members : List (JsString × Json)} (h : Members java s members r) :
    consume (unit '}') (skipWhitespace s) = none := by
  cases h with
  | last hw _ _ _ _ _ =>
    rw [skipWhitespace_eq hw (by decide)]
    rfl
  | more hw _ _ _ _ _ _ =>
    rw [skipWhitespace_eq hw (by decide)]
    rfl

mutual

/-- A value is read as one. -/
theorem parseValue_complete : ∀ {s r : JsString} {v : Json}, Value java s v r → Follow r →
    ∀ {s₀ : JsString} {fuel : ℕ}, skipWhitespace s₀ = s → 2 * s₀.length + 1 ≤ fuel →
      ∃ w : JavaValue, w.toJson = v ∧ parseValue fuel s₀ = .ok (w, r)
  | _, _, _, .null, _, s₀, fuel, hs, hfuel => by
    obtain ⟨fuel, rfl, -⟩ := exists_fuel hfuel
    exact ⟨.null, rfl, parseValue_null hs⟩
  | _, _, _, .true, _, s₀, fuel, hs, hfuel => by
    obtain ⟨fuel, rfl, -⟩ := exists_fuel hfuel
    exact ⟨.bool true, rfl, parseValue_true hs⟩
  | _, _, _, .false, _, s₀, fuel, hs, hfuel => by
    obtain ⟨fuel, rfl, -⟩ := exists_fuel hfuel
    exact ⟨.bool false, rfl, parseValue_false hs⟩
  | _, _, _, .number hq, hr, s₀, fuel, hs, hfuel => by
    obtain ⟨fuel, rfl, -⟩ := exists_fuel hfuel
    exact parseValue_number hq hr hs
  | _, _, _, .string ht, _, s₀, fuel, hs, hfuel => by
    obtain ⟨fuel, rfl, -⟩ := exists_fuel hfuel
    exact ⟨.string _, rfl, parseValue_string hs ht⟩
  | _, _, _, .emptyArray hw, _, s₀, fuel, hs, hfuel => by
    obtain ⟨fuel, rfl, -⟩ := exists_fuel hfuel
    refine ⟨.list [], rfl, ?_⟩
    rw [parseValue_bracket hs, skipWhitespace_eq hw (by decide), consume_eq_some.mpr rfl]
  | _, _, _, @Value.array _ s _ _ hitems, _, s₀, fuel, hs, hfuel => by
    obtain ⟨fuel, rfl, hfuel⟩ := exists_fuel hfuel
    have hlength := length_of_skipWhitespace hs
    have hlength' := (ws_skipWhitespace s).length_le
    obtain ⟨ws, rfl, hparse⟩ := parseElements_complete hitems (skipWhitespace_idem s)
      (show 2 * (skipWhitespace s).length + 2 ≤ fuel by omega) []
    refine ⟨.list ws, rfl, ?_⟩
    rw [parseValue_bracket hs, not_bracket_of_elements hitems]
    exact hparse
  | _, _, _, .emptyObject hw, _, s₀, fuel, hs, hfuel => by
    obtain ⟨fuel, rfl, -⟩ := exists_fuel hfuel
    refine ⟨.map [], rfl, ?_⟩
    rw [parseValue_brace hs, skipWhitespace_eq hw (by decide), consume_eq_some.mpr rfl]
  | _, _, _, @Value.object _ s _ _ hmembers hkeys, _, s₀, fuel, hs, hfuel => by
    obtain ⟨fuel, rfl, hfuel⟩ := exists_fuel hfuel
    have hlength := length_of_skipWhitespace hs
    have hlength' := (ws_skipWhitespace s).length_le
    obtain ⟨entries, rfl, hparse⟩ := parseMembers_complete hmembers (skipWhitespace_idem s)
      (show 2 * (skipWhitespace s).length + 2 ≤ fuel by omega) [] hkeys
    refine ⟨.map entries, rfl, ?_⟩
    rw [parseValue_brace hs, not_brace_of_members hmembers]
    exact hparse

theorem parseElements_complete : ∀ {s r : JsString} {items : List Json}, Elements java s items r →
    ∀ {s₀ : JsString} {fuel : ℕ}, skipWhitespace s₀ = skipWhitespace s → 2 * s₀.length + 2 ≤ fuel →
      ∀ result, ∃ ws, JavaValue.toJsonItems ws = items ∧ parseElements fuel result s₀ = .ok (.list (result ++ ws), r)
  | _, _, _, .last hw hv hw', s₀, fuel, hs, hfuel, result => by
    obtain ⟨fuel, rfl, hfuel⟩ := exists_fuel hfuel
    obtain ⟨w, rfl, hvalue⟩ := parseValue_complete hv (follow_of_ws hw' (by decide))
      (hs.trans (skipWhitespace_value hw hv)) (show 2 * s₀.length + 1 ≤ fuel by omega)
    refine ⟨[w], rfl, ?_⟩
    rw [parseElements_step hvalue, skipWhitespace_eq hw' (by decide), consume_eq_some.mpr rfl]
  | _, _, _, @Elements.more _ _ _ s₂ s₃ _ _ _ hw hv hw' hrest, s₀, fuel, hs, hfuel, result => by
    obtain ⟨fuel, rfl, hfuel⟩ := exists_fuel hfuel
    have hs₁ := hs.trans (skipWhitespace_value hw hv)
    obtain ⟨w, rfl, hvalue⟩ := parseValue_complete hv (follow_of_ws hw' (by decide)) hs₁
      (show 2 * s₀.length + 1 ≤ fuel by omega)
    have hcomma : skipWhitespace s₂ = unit ',' :: s₃ := skipWhitespace_eq hw' (by decide)
    have hlength₁ := (ws_skipWhitespace s₀).length_le
    rw [hs₁] at hlength₁
    have hlength₂ := hv.length_le
    have hlength₃ := length_of_skipWhitespace hcomma
    obtain ⟨ws, rfl, hparse⟩ := parseElements_complete hrest rfl
      (show 2 * s₃.length + 2 ≤ fuel by omega) (result ++ [w])
    refine ⟨w :: ws, rfl, ?_⟩
    rw [parseElements_step hvalue, hcomma]
    refine hparse.trans ?_
    rw [List.append_assoc]
    rfl

theorem parseMembers_complete : ∀ {s r : JsString} {members : List (JsString × Json)}, Members java s members r →
    ∀ {s₀ : JsString} {fuel : ℕ}, skipWhitespace s₀ = skipWhitespace s → 2 * s₀.length + 2 ≤ fuel →
      ∀ result : List (JsString × JavaValue), (result.map Prod.fst ++ members.map Prod.fst).Nodup →
      ∃ entries, JavaValue.toJsonEntries entries = members ∧
        parseMembers fuel result s₀ = .ok (.map (result ++ entries), r)
  | _, _, _, @Members.last _ _ _ s₂ s₃ _ _ _ key _ hw hkey hw₂ hw₃ hv hw₅, s₀, fuel, hs, hfuel, result, hkeys => by
    obtain ⟨fuel, rfl, hfuel⟩ := exists_fuel hfuel
    have hquote := hs.trans (skipWhitespace_eq hw (by decide))
    have hcolon : skipWhitespace s₂ = unit ':' :: s₃ := skipWhitespace_eq hw₂ (by decide)
    have hlength := length_of_member hquote hkey hcolon
    obtain ⟨w, rfl, hvalue⟩ := parseValue_complete hv (follow_of_ws hw₅ (by decide))
      (skipWhitespace_value hw₃ hv) (show 2 * s₃.length + 1 ≤ fuel by omega)
    have hfresh : key ∉ result.map Prod.fst := fun hmem =>
      (List.disjoint_of_nodup_append hkeys) hmem List.mem_cons_self
    refine ⟨[(key, w)], rfl, ?_⟩
    rw [parseMembers_step hquote hkey hcolon hvalue hfresh, skipWhitespace_eq hw₅ (by decide), consume_eq_some.mpr rfl]
  | _, _, _, @Members.more _ _ _ s₂ s₃ _ s₅ s₆ _ key _ members hw hkey hw₂ hw₃ hv hw₅ hrest, s₀, fuel, hs, hfuel,
      result, hkeys => by
    obtain ⟨fuel, rfl, hfuel⟩ := exists_fuel hfuel
    have hquote := hs.trans (skipWhitespace_eq hw (by decide))
    have hcolon : skipWhitespace s₂ = unit ':' :: s₃ := skipWhitespace_eq hw₂ (by decide)
    have hlength := length_of_member hquote hkey hcolon
    obtain ⟨w, rfl, hvalue⟩ := parseValue_complete hv (follow_of_ws hw₅ (by decide))
      (skipWhitespace_value hw₃ hv) (show 2 * s₃.length + 1 ≤ fuel by omega)
    have hfresh : key ∉ result.map Prod.fst := fun hmem =>
      (List.disjoint_of_nodup_append hkeys) hmem List.mem_cons_self
    have hcomma : skipWhitespace s₅ = unit ',' :: s₆ := skipWhitespace_eq hw₅ (by decide)
    have hlength₃ := hw₃.length_le
    have hlength₄ := hv.length_le
    have hlength₅ := length_of_skipWhitespace hcomma
    have hkeys' : ((result ++ [(key, w)]).map Prod.fst ++ members.map Prod.fst).Nodup := by
      rw [List.map_append, List.append_assoc]
      exact hkeys
    obtain ⟨entries, rfl, hparse⟩ := parseMembers_complete hrest rfl
      (show 2 * s₆.length + 2 ≤ fuel by omega) (result ++ [(key, w)]) hkeys'
    refine ⟨(key, w) :: entries, rfl, ?_⟩
    rw [parseMembers_step hquote hkey hcolon hvalue hfresh, hcomma]
    refine hparse.trans ?_
    rw [List.append_assoc]
    rfl

end

/-! ### Texts -/

theorem parse_eq_ok {s : JsString} {v : JavaValue} :
    parse s = .ok v ↔ ∃ r, parseValue (2 * s.length + 1) s = .ok (v, r) ∧ skipWhitespace r = [] := by
  unfold parse
  cases hparse : parseValue (2 * s.length + 1) s with
  | error failure =>
    refine ⟨nofun, ?_⟩
    rintro ⟨r, h, -⟩
    cases h
  | ok p =>
    obtain ⟨w, r⟩ := p
    simp only
    constructor
    · intro h
      split at h
      · next hend =>
        cases h
        exact ⟨r, rfl, hend⟩
      · cases h
    · rintro ⟨r', h, hend⟩
      cases h
      rw [if_pos hend]

/-- The parser accepts the texts of the grammar, with their values. -/
theorem parse_iff (s : JsString) (j : Json) : (∃ v, parse s = .ok v ∧ v.toJson = j) ↔ Text java s j := by
  constructor
  · rintro ⟨v, h, rfl⟩
    obtain ⟨r, hvalue, hend⟩ := parse_eq_ok.mp h
    obtain ⟨s₁, hw, hv⟩ := parseValue_sound _ hvalue
    exact ⟨s₁, r, hw, hv, hend ▸ ws_skipWhitespace r⟩
  · rintro ⟨s₁, r, hw, hv, hend⟩
    obtain ⟨v, rfl, hvalue⟩ := parseValue_complete hv (follow_of_ws_nil hend) (skipWhitespace_value hw hv) le_rfl
    exact ⟨v, parse_eq_ok.mpr ⟨r, hvalue, skipWhitespace_of_ws hend⟩, rfl⟩

/-- A text has one value. -/
theorem text_unique {s : JsString} {j j' : Json} (h : Text java s j) (h' : Text java s j') : j = j' := by
  obtain ⟨v, hv, rfl⟩ := (parse_iff s j).mpr h
  obtain ⟨v', hv', rfl⟩ := (parse_iff s j').mpr h'
  rw [hv] at hv'
  cases hv'
  rfl

theorem digit_ascii {c : UInt16} (h : 0x30 ≤ c ∧ c ≤ 0x39) : digit c = some (c.toNat - 0x30) := by
  have hfind : (zeros.find? fun zero => zero ≤ c && c ≤ zero + 9) = some 0x30 := by
    rw [zeros, List.find?_cons_of_pos]
    rw [Bool.and_eq_true, decide_eq_true_eq, decide_eq_true_eq]
    exact h
  rw [digit, hfind]
  rfl

/-- Between the ASCII digits and the Arabic ones there are none. -/
theorem digit_eq_none {c : UInt16} (h : 0x39 < c) (h' : c < 0x660) : digit c = none := by
  have hzeros : zeros.all (fun zero => zero = 0x30 ∨ 0x660 ≤ zero) = true := by decide
  rw [digit, Option.map_eq_none_iff, List.find?_eq_none]
  intro zero hzero
  rw [Bool.and_eq_true, decide_eq_true_eq, decide_eq_true_eq]
  rintro ⟨hle, hge⟩
  rcases of_decide_eq_true (List.all_eq_true.mp hzeros zero hzero) with rfl | hlarge
  · exact UInt16.not_lt.mpr hge h
  · exact UInt16.not_lt.mpr (UInt16.le_trans hlarge hle) h'

/-- The digits of the parser are more than those of RFC 8259. -/
theorem rfc_le_java : rfc.Le java where
  decimal c n h := by
    have hdigit := Option.ite_none_right_eq_some.mp h
    exact (digit_ascii hdigit.1).trans hdigit.2
  hex c n h := by
    show digit16 c = some n
    change asciiHex c = some n at h
    rw [asciiHex] at h
    split at h
    · next hdigit =>
      rw [digit16, digit_ascii hdigit]
      exact h
    · next hdigit =>
      split at h
      · next hupper =>
        rw [digit16, digit_eq_none (UInt16.lt_of_lt_of_le (by decide) hupper.1)
          (UInt16.lt_of_le_of_lt hupper.2 (by decide))]
        exact (if_pos hupper).trans h
      · next hupper =>
        obtain ⟨hlower, hn⟩ := Option.ite_none_right_eq_some.mp h
        rw [digit16, digit_eq_none (UInt16.lt_of_lt_of_le (by decide) hlower.1)
          (UInt16.lt_of_le_of_lt hlower.2 (by decide))]
        simp only
        rw [if_neg hupper, if_pos hlower]
        exact hn
  fits _ _ h := h

/-- The parser is right about a text if it is one of JSON, or none even with the parser's digits. -/
theorem parse_rfc_iff (s : JsString) :
    (∀ j, (∃ v, parse s = .ok v ∧ v.toJson = j) ↔ Text rfc s j) ↔ ((∃ j, Text java s j) → ∃ j, Text rfc s j) := by
  simp only [parse_iff]
  constructor
  · rintro h ⟨j, hj⟩
    exact ⟨j, (h j).mp hj⟩
  · intro h j
    refine ⟨fun hj => ?_, Text.mono rfc_le_java⟩
    obtain ⟨j', hj'⟩ := h ⟨j, hj⟩
    rwa [text_unique hj (Text.mono rfc_le_java hj')]

namespace Sample

/-- The digit one, in Arabic-Indic. -/
def arabicOne : JsString := [0x661]

theorem parse_arabicOne : parse arabicOne = .ok (.long 1) := rfl

theorem not_rfc_arabicOne (j : Json) : ¬ Text rfc arabicOne j := by
  rintro ⟨s₁, s₂, hw, hv, -⟩
  have hs₁ : s₁ = arabicOne := by
    cases hw with
    | nil => rfl
    | cons hws _ => exact absurd hws (by decide)
  cases hv with
  | number hq =>
    obtain ⟨n, hn, -, htext, -⟩ := hq
    rw [text_append] at htext
    have hhead : (n.int ++ (fractionText n ++ (exponentText n ++ s₂))).head? ≠ some 0x661 := by
      rcases hn.int with hint | ⟨hint, -⟩
      · rw [hint]
        exact nofun
      · rw [head?_append_of_ne_nil hint.1]
        intro hc
        exact absurd (hint.2 _ (List.mem_of_mem_head? hc)) (by decide)
    cases hminus : n.minus with
    | true =>
      rw [hminus, hs₁] at htext
      cases htext
    | false =>
      rw [hminus, hs₁] at htext
      exact hhead (htext ▸ rfl)
  | _ => cases hs₁

/-- The digit one of another alphabet is read as a number. -/
theorem foreignDigit_accepted : ¬ ∀ s j, (∃ v, parse s = .ok v ∧ v.toJson = j) ↔ Text rfc s j :=
  fun h => not_rfc_arabicOne _ ((h arabicOne (.num 1)).mp ⟨.long 1, parse_arabicOne, rfl⟩)

end Sample

end JvmJson
