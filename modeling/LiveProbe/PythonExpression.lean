/-
LiveProbe/PythonExpression.lean

The expression evaluator of the Python agent: `safe_expression.py`, with the
redaction of `SerializerConfig`.  Python keeps integers apart from floats and
computes with them exactly, a `str` is a sequence of code points, and a list has
items and nothing else.

`Unicode` stands for the tables of the interpreter: case folding and the decimal
digits, which `str.isdecimal` knows in every script.  The `dict`s and `list`s a
path leads through are those of the captured JSON tree.
-/
import LiveProbe.CodePoints
import LiveProbe.SafeExpression

open JsString Binary64 Outcome Portable

namespace PythonAgent

/-- A `str`. -/
abbrev PyString := List ℕ

/-- Two strings are compared character by character. -/
instance : LawfulBEq PyString := inferInstance

structure Unicode where
  casefold : PyString → PyString
  digit : ℕ → Option ℕ
  digit_ascii : ∀ d < 10, digit (0x30 + d) = some d

theorem asciiDigit (d : ℕ) (hd : d < 10) :
    (if 0x30 ≤ 0x30 + d ∧ 0x30 + d ≤ 0x39 then some (0x30 + d - 0x30) else none) = some d := by
  rw [if_pos ⟨by omega, by omega⟩, Nat.add_sub_cancel_left]

/-! ### Values and nodes -/

/-- An `int` or a finite `float`. -/
inductive PyNumber
  | int (z : ℤ)
  | float (a : Double)
  deriving DecidableEq

namespace PyNumber

def value : PyNumber → ℚ
  | int z => z
  | float a => a.value

/-- `float(number)`; a large `int` overflows. -/
def toFloat : PyNumber → Option Double
  | int z => Double.rounded false z
  | float a => some a

end PyNumber

inductive PyValue
  | none
  | bool (b : Bool)
  | number (n : PyNumber)
  | str (s : PyString)
  | list (items : List Json)
  | dict (members : List (JsString × Json))

/-- A value as `json` reads it: the integers are `int`s. -/
def PyValue.ofJson : Json → PyValue
  | .null => none
  | .bool b => bool b
  | .num q => number (if q.den = 1 then .int q.num else .float (Double.ofRat false q))
  | .str s => str (codePoints s)
  | .arr items => list items
  | .obj members => dict members

/-- `PathSegment` -/
inductive PySegment
  | name (s : PyString)
  | index (n : ℕ)
  deriving DecidableEq, Repr

/-- `ExpressionNode` -/
inductive PyNode
  | literal (value : PyValue)
  | reference (path : List PySegment)
  | unary (operator : UnaryOperator) (operand : PyNode)
  | binary (operator : BinaryOperator) (left right : PyNode)

/-! ### Redaction -/

structure SerializerConfig where
  redactKeys : List PyString
  redactValues : List PyString
  deriving DecidableEq, Repr

/-- `DEFAULT_REDACT_KEYS` -/
def defaultRedactKeys : List PyString := NodeAgent.defaultRedactKeys.map codePoints

/-- `sub in text` -/
def contains (text sub : PyString) : Bool := decide (sub <:+: text)

section

variable (unicode : Unicode)

/-- The loop of `from_mapping` over the keys: the keys kept and their foldings. -/
def addKey (keys : List PyString × List PyString) (key : PyString) :
    Except String (List PyString × List PyString) :=
  if key = [] then .error "redactKeys entries must be non-empty strings"
  else if unicode.casefold key ∉ keys.2 then
    .ok (keys.1 ++ [key], keys.2 ++ [unicode.casefold key])
  else .ok keys

/-- `SerializerConfig.from_mapping`, as far as redaction goes -/
def SerializerConfig.fromMapping (redactKeys redactValues : List PyString) :
    Except String SerializerConfig := do
  let keys ← (defaultRedactKeys ++ redactKeys).foldlM (addKey unicode) ([], [])
  return { redactKeys := keys.1, redactValues := redactValues.eraseDups }

def redactsKey (config : SerializerConfig) (key : PyString) : Bool :=
  let folded := unicode.casefold key
  config.redactKeys.any fun pattern => contains folded (unicode.casefold pattern)

/-! ### Paths -/

def isdecimal (s : PyString) : Bool := s ≠ [] && s.all fun c => (unicode.digit c).isSome

/-- `int(text)` of decimal digits -/
def toInt (s : PyString) : ℕ := s.foldl (fun n c => 10 * n + (unicode.digit c).getD 0) 0

/-- `_sequence_index` -/
def sequenceIndex : PySegment → Option ℕ
  | .index n => some n
  | .name s =>
    if isdecimal unicode s ∧ (s = [0x30] ∨ s.head? ≠ some 0x30) then some (toInt unicode s)
    else none

/-- `str(segment)` -/
def segmentText : PySegment → PyString
  | .name s => s
  | .index n => (decimal n).map UInt16.toNat

/-- `_own_dict_value` -/
def ownDictValue (members : List (JsString × Json)) (key : PyString) : Option PyValue :=
  (members.find? fun m => codePoints m.1 = key).map fun m => PyValue.ofJson m.2

/-- What a segment of a path leads to; nothing is missing. -/
def follow (current : PyValue) (segment : PySegment) : Option PyValue :=
  match current with
  | .dict members => ownDictValue members (segmentText segment)
  | .list items => do
    let index ← sequenceIndex unicode segment
    if items.length ≤ index then none else items[index]?.map PyValue.ofJson
  | _ => none

/-- `_number` -/
def isNumber : PyValue → Bool
  | .number (.int z) => z.natAbs ≤ Schema.maxSafeInteger
  | .number (.float a) => a.value.den ≠ 1 || a.value.num.natAbs ≤ Schema.maxSafeInteger
  | _ => false

/-- `_scalar` -/
def isScalar : PyValue → Bool
  | .none | .str _ | .bool _ => true
  | value => isNumber value

def safeResult (config : SerializerConfig) (value : PyValue) : Except String PyValue :=
  match value with
  | .number _ => if !isNumber value then .error "unsafe-number" else .ok value
  | .str s => if s ∈ config.redactValues then .error "redacted" else .ok value
  | _ => .ok value

/-- A segment that a key pattern matches; integers are not matched. -/
def redactsSegment (config : SerializerConfig) : PySegment → Bool
  | .name s => redactsKey unicode config s
  | .index _ => false

/-- `_resolve_path` -/
def resolvePath (config : SerializerConfig) : List PySegment → PyValue → Except String PyValue
  | [], current => safeResult config current
  | segment :: path, current =>
    if redactsSegment unicode config segment then .error "redacted"
    else
      match follow unicode current segment with
      | none => .error "missing"
      | some next => resolvePath config path next

end

/-! ### Operators -/

/-- `_numeric_error` -/
def numericError (values : List PyValue) : String :=
  let unsafeNumber : PyValue → Bool
    | .number n => !isNumber (.number n)
    | _ => false
  if values.any unsafeNumber then "unsafe-number"
  else if values.length = 1 then "expected-number"
  else "expected-numbers"

/-- `_same_scalar` -/
def sameScalar (left right : PyValue) : Bool :=
  if !(isScalar left && isScalar right) then false
  else
    match left, right with
    | .number m, .number n => m.value = n.value
    | .none, .none => true
    | .bool a, .bool b => a = b
    | .str s, .str t => s = t
    | _, _ => false

/-- `_finite_result`; nothing is an infinite `float`. -/
def finiteResult : Option PyNumber → Except String PyValue
  | none => .error "non-finite-result"
  | some n => if !isNumber (.number n) then .error "unsafe-number" else .ok (.number n)

/-- An operation on two numbers: exact on two `int`s, rounded on `float`s. -/
def compute (exact : ℤ → ℤ → ℤ) (rounded : Double → Double → Option Double)
    (m n : PyNumber) : Option PyNumber :=
  match m, n with
  | .int a, .int b => some (.int (exact a b))
  | m, n => do
    let a ← m.toFloat
    let b ← n.toFloat
    return .float (← rounded a b)

/-- The true division of two numbers, which is a `float` -/
def trueDivide (m n : PyNumber) : Option PyNumber := do
  let a ← m.toFloat
  let b ← n.toFloat
  return .float (← a.div b)

/-- `math.fmod`, an `int` for two `int`s -/
def fmod (m n : PyNumber) : Option PyNumber := do
  let a ← m.toFloat
  let b ← n.toFloat
  match m, n with
  | .int _, .int _ => return .int (Double.trunc (a.rem b).value)
  | _, _ => return .float (a.rem b)

def arithmetic (operator : BinaryOperator) (m n : PyNumber) : Except String PyValue :=
  if operator = .add then finiteResult (compute (· + ·) Double.add m n)
  else if operator = .subtract then finiteResult (compute (· - ·) Double.sub m n)
  else if operator = .multiply then finiteResult (compute (· * ·) Double.mul m n)
  else if operator = .divide then
    if n.value = 0 then .error "division-by-zero" else finiteResult (trueDivide m n)
  else if n.value = 0 then .error "division-by-zero"
  else finiteResult (fmod m n)

def negateNumber : PyNumber → PyNumber
  | .int z => .int (-z)
  | .float a => .float a.neg

def unary (operator : UnaryOperator) (operand : PyValue) : Except String PyValue :=
  match operator, operand with
  | .not, .bool b => .ok (.bool !b)
  | .not, _ => .error "expected-boolean"
  | .negate, .number n =>
    if !isNumber (.number n) then .error (numericError [operand])
    else finiteResult (some (negateNumber n))
  | .negate, _ => .error (numericError [operand])

/-- The two numbers of an operation, if both operands are numbers. -/
def numberPair : PyValue → PyValue → Option (PyNumber × PyNumber)
  | .number m, .number n =>
    if isNumber (.number m) && isNumber (.number n) then some (m, n) else none
  | _, _ => none

/-- `_evaluate` once both operands of a binary operator are evaluated -/
def binary (config : SerializerConfig) (operator : BinaryOperator) (left right : PyValue) :
    Except String PyValue :=
  if operator = .eq ∨ operator = .ne then
    if !(isScalar left && isScalar right) then .error "expected-scalars"
    else
      let equal := sameScalar left right
      .ok (.bool (if operator = .eq then equal else !equal))
  else if operator = .gt ∨ operator = .gte ∨ operator = .lt ∨ operator = .lte then
    match numberPair left right with
    | none => .error (numericError [left, right])
    | some (m, n) =>
      if operator = .gt then .ok (.bool (n.value < m.value))
      else if operator = .gte then .ok (.bool (n.value ≤ m.value))
      else if operator = .lt then .ok (.bool (m.value < n.value))
      else .ok (.bool (m.value ≤ n.value))
  else
    match operator, left, right with
    | .add, .str s, .str t => safeResult config (.str (s ++ t))
    | _, _, _ =>
      match numberPair left right with
      | none => .error (numericError [left, right])
      | some (m, n) => arithmetic operator m n

/-- `_evaluate` -/
def evaluate (unicode : Unicode) (config : SerializerConfig) (root : PyValue) :
    PyNode → Except String PyValue
  | .literal value => safeResult config value
  | .reference path => resolvePath unicode config path root
  | .unary operator operand => evaluate unicode config root operand >>= unary operator
  | .binary operator left right =>
    evaluate unicode config root left >>= fun left =>
      if operator = .and ∨ operator = .or then
        match left with
        | .bool b =>
          if operator = .and ∧ b = false then .ok (.bool false)
          else if operator = .or ∧ b = true then .ok (.bool true)
          else
            evaluate unicode config root right >>= fun right =>
              match right with
              | .bool c => .ok (.bool c)
              | _ => .error "expected-boolean"
        | _ => .error "expected-boolean"
      else evaluate unicode config root right >>= binary config operator left

/-- `CompiledExpression` -/
structure PyExpression where
  source : PyString
  ast : PyNode

/-- `evaluate_expression` -/
def evaluateExpression (unicode : Unicode) (expression : PyExpression) (root : Json)
    (config : SerializerConfig) : Except String PyValue :=
  evaluate unicode config (PyValue.ofJson root) expression.ast

/-! ### Validation -/

/-- `_FORBIDDEN_SEGMENTS` -/
def forbiddenSegments : List PyString := Expression.forbiddenSegments.map codePoints

/-- `_path_segment` -/
def pathSegment : PySegment → Bool
  | .name s => 0 < s.length && s.length ≤ 128 && s ∉ forbiddenSegments
  | .index n => n ≤ Schema.maxSafeInteger

/-- `_parse_node`: the count of nodes after an admitted node. -/
def parseNode (node : PyNode) (count depth : ℕ) : Option ℕ :=
  if 100 < count + 1 ∨ 20 < depth then none
  else
    match node with
    | .literal value => if isScalar value then some (count + 1) else none
    | .reference path =>
      if path ≠ [] ∧ path.length ≤ 64 ∧ path.all pathSegment then some (count + 1) else none
    | .unary _ operand => parseNode operand (count + 1) (depth + 1)
    | .binary _ left right => do
      let count ← parseNode left (count + 1) (depth + 1)
      parseNode right count (depth + 1)

end PythonAgent
