/-
LiveProbe/JvmExpression.lean

The expression evaluator of the JVM bridge: `SafeExpression.java`, with the
redaction of `SafeSerializer.Config`.  Numbers are boxed and read through
`doubleValue`; equality compares the doubles, an ordering operator uses
`Double.compare`, and a list has elements and nothing else.

`toLowerCase(Locale.ROOT)` is the parameter `lower`.  The markers of values that
were not read from the target (`RawRedacted`, `JdiObjectReference`) are no JSON
values.
-/
import LiveProbe.CodePoints
import LiveProbe.SafeExpression

open JsString Binary64 Outcome Portable

namespace JvmBridge

/-! ### Values and nodes -/

/-- A boxed number: an integer, a `BigDecimal` or a finite `Double`. -/
inductive JvmNumber
  | integer (z : ℤ)
  | decimal (q : ℚ)
  | double (a : Double)
  deriving DecidableEq

/-- `number.doubleValue()`; nothing is an infinity. -/
def JvmNumber.doubleValue : JvmNumber → Option Double
  | integer z => Double.rounded false z
  | decimal q => Double.rounded (decide (q < 0)) q
  | double a => some a

inductive JvmValue
  | null
  | bool (b : Bool)
  | number (n : JvmNumber)
  | string (s : JsString)
  | list (items : List Json)
  | map (members : List (JsString × Json))

/-- A captured value; an integral number is boxed as one. -/
def JvmValue.ofJson : Json → JvmValue
  | .null => null
  | .bool b => bool b
  | .num q => number (if q.den = 1 then .integer q.num else .double (Double.ofRat false q))
  | .str s => string s
  | .arr items => list items
  | .obj members => map members

/-- `Node` -/
inductive JvmNode
  | literal (value : JvmValue)
  | reference (path : List PathSegment)
  | unary (operator : UnaryOperator) (operand : JvmNode)
  | binary (operator : BinaryOperator) (left right : JvmNode)

/-- `Compiled` -/
structure Compiled where
  source : JsString
  ast : JvmNode

/-! ### Redaction -/

/-- `Config`, as far as redaction goes. -/
structure Config where
  redactKeys : List JsString
  redactValues : List JsString
  deriving DecidableEq, Repr

/-- `DEFAULT_REDACT_KEYS` -/
def defaultRedactKeys : List JsString :=
  [js "password", js "secret", js "token", js "authorization", js "cookie", js "key",
   js "signature", js "ssn", js "creditcard"]

/-- `Character.isWhitespace` -/
def isWhitespace (c : UInt16) : Bool :=
  (0x09 ≤ c && c ≤ 0x0D) || (0x1C ≤ c && c ≤ 0x20) || c = 0x1680 ||
    (0x2000 ≤ c && c ≤ 0x2006) || (0x2008 ≤ c && c ≤ 0x200A) || c = 0x2028 || c = 0x2029 ||
    c = 0x205F || c = 0x3000

/-- `text.isBlank()` -/
def isBlank (s : JsString) : Bool := s.all isWhitespace

section

variable (lower : JsString → JsString)

/-- The constructor of `Config`; both fields are sets in the order of insertion. -/
def Config.new (additionalRedactKeys redactValues : List JsString) : Config where
  redactKeys :=
    (defaultRedactKeys ++
      (additionalRedactKeys.filter fun key => !isBlank key).map lower).eraseDups
  redactValues := redactValues.eraseDups

def isRedactedKey (config : Config) (key : JsString) : Bool :=
  let normalized := lower key
  config.redactKeys.any fun pattern => NodeAgent.includes normalized pattern

/-! ### Numbers -/

/-- `portableNumber` -/
def portableNumber (number : JvmNumber) : Bool :=
  match number.doubleValue with
  | none => false
  | some value => value.value.den ≠ 1 || value.value.num.natAbs ≤ Schema.maxSafeInteger

/-- `isJsonScalar` -/
def isJsonScalar : JvmValue → Bool
  | .null | .string _ | .bool _ => true
  | .number number => portableNumber number
  | _ => false

def numericError (values : List JvmValue) : String :=
  let unsafeNumber : JvmValue → Bool
    | .number number => !portableNumber number
    | _ => false
  if values.any unsafeNumber then "unsafe-number"
  else if values.length = 1 then "expected-number"
  else "expected-numbers"

def safeResult (config : Config) (value : JvmValue) : Except String JvmValue :=
  match value with
  | .number number => if !portableNumber number then .error "unsafe-number" else .ok value
  | .string text => if text ∈ config.redactValues then .error "redacted" else .ok value
  | _ => .ok value

/-- `safeNumericResult`; nothing is an infinity. -/
def safeNumericResult : Option Double → Except String JvmValue
  | none => .error "non-finite-result"
  | some value =>
    if portableNumber (.double value) then .ok (.number (.double value))
    else .error "unsafe-number"

/-! ### Paths -/

/-- `Long.MAX_VALUE` -/
def longMax : ℕ := 2 ^ 63 - 1

/-- `listIndex`; a negative position is none. -/
def listIndex : PathSegment → Option ℕ
  | .index n => some n
  | .name text =>
    if text = [] ∨ 1 < text.length ∧ text.head? = some 0x30 then none
    else if !text.all isDigit then none
    else if digitsValue text ≤ longMax then some (digitsValue text)
    else none

/-- What a segment of a path leads to; nothing is missing. -/
def follow (current : JvmValue) (segment : PathSegment) : Option JvmValue :=
  match current with
  | .map members =>
    (members.find? fun m => m.1 = segmentKey segment).map fun m => JvmValue.ofJson m.2
  | .list items => do
    let position ← listIndex segment
    if items.length ≤ position then none else items[position]?.map JvmValue.ofJson
  | _ => none

/-- A segment that a key pattern matches; integers are not matched. -/
def redactsSegment (config : Config) : PathSegment → Bool
  | .name property => isRedactedKey lower config property
  | .index _ => false

def resolve (config : Config) : List PathSegment → JvmValue → Except String JvmValue
  | [], current => safeResult config current
  | segment :: path, current =>
    if redactsSegment lower config segment then .error "redacted"
    else
      match follow current segment with
      | none => .error "missing"
      | some next => resolve config path next

end

/-! ### Operators -/

def scalarEquals : JvmValue → JvmValue → Bool
  | .null, .null => true
  | .number m, .number n =>
    portableNumber m && portableNumber n &&
      (match m.doubleValue, n.doubleValue with
        | some a, some b => a.value = b.value
        | _, _ => false)
  | .string s, .string t => s = t
  | .bool a, .bool b => a = b
  | _, _ => false

def unary (operator : UnaryOperator) (operand : JvmValue) : Except String JvmValue :=
  match operator, operand with
  | .not, .bool b => .ok (.bool !b)
  | .not, _ => .error "expected-boolean"
  -- `finite` holds of every boxed number but an infinite `Double`
  | .negate, .number number => safeNumericResult (number.doubleValue.map Double.neg)
  | .negate, _ => .error (numericError [operand])

/-- The doubles of an operation, if both operands are portable numbers. -/
def doublePair : JvmValue → JvmValue → Option (Double × Double)
  | .number m, .number n =>
    if portableNumber m && portableNumber n then do
      return (← m.doubleValue, ← n.doubleValue)
    else none
  | _, _ => none

def arithmetic (operator : BinaryOperator) (a b : Double) : Except String JvmValue :=
  match operator with
  | .add => safeNumericResult (a.add b)
  | .subtract => safeNumericResult (a.sub b)
  | .multiply => safeNumericResult (a.mul b)
  | .divide =>
    if b.value = 0 then .error "division-by-zero" else safeNumericResult (a.div b)
  | .modulo =>
    if b.value = 0 then .error "division-by-zero" else safeNumericResult (some (a.rem b))
  | _ => .error "unsupported-operator"

/-- `evaluateNode` once both operands of a binary operator are evaluated -/
def binary (config : Config) (operator : BinaryOperator) (left right : JvmValue) :
    Except String JvmValue :=
  if operator = .eq ∨ operator = .ne then
    if !isJsonScalar left || !isJsonScalar right then .error "expected-scalars"
    else
      let equal := scalarEquals left right
      .ok (.bool (if operator = .eq then equal else !equal))
  else if operator = .gt ∨ operator = .gte ∨ operator = .lt ∨ operator = .lte then
    match doublePair left right with
    | none => .error (numericError [left, right])
    | some (a, b) =>
      let comparison := a.compare b
      if operator = .gt then .ok (.bool (comparison = .gt))
      else if operator = .gte then .ok (.bool (comparison ≠ .lt))
      else if operator = .lt then .ok (.bool (comparison = .lt))
      else .ok (.bool (comparison ≠ .gt))
  else
    match operator, left, right with
    | .add, .string s, .string t => safeResult config (.string (s ++ t))
    | _, _, _ =>
      match doublePair left right with
      | none => .error (numericError [left, right])
      | some (a, b) => arithmetic operator a b

def evaluateNode (lower : JsString → JsString) (config : Config) (root : JvmValue) :
    JvmNode → Except String JvmValue
  | .literal value => safeResult config value
  | .reference path => resolve lower config path root
  | .unary operator operand => evaluateNode lower config root operand >>= unary operator
  | .binary operator left right =>
    evaluateNode lower config root left >>= fun left =>
      if operator = .and ∨ operator = .or then
        match left with
        | .bool b =>
          if operator = .and ∧ b = false then .ok (.bool false)
          else if operator = .or ∧ b = true then .ok (.bool true)
          else
            evaluateNode lower config root right >>= fun right =>
              match right with
              | .bool c => .ok (.bool c)
              | _ => .error "expected-boolean"
        | _ => .error "expected-boolean"
      else evaluateNode lower config root right >>= binary config operator left

/-- `evaluate` -/
def evaluate (lower : JsString → JsString) (expression : Compiled) (locals : Json)
    (config : Config) : Except String JvmValue :=
  evaluateNode lower config (JvmValue.ofJson locals) expression.ast

/-! ### Validation -/

/-- A segment that `parsePath` admits. -/
def pathSegment : PathSegment → Bool
  | .name s => s ≠ [] && s.length ≤ 128 && s ∉ Expression.forbiddenSegments
  | .index n => n ≤ Schema.maxSafeInteger

/-- `parseNode`: the count of nodes after an admitted node. -/
def parseNode (node : JvmNode) (count depth : ℕ) : Option ℕ :=
  if 100 < count + 1 ∨ 20 < depth then none
  else
    match node with
    | .literal value => if isJsonScalar value then some (count + 1) else none
    | .reference path =>
      if path ≠ [] ∧ path.length ≤ 64 ∧ path.all pathSegment then some (count + 1) else none
    | .unary _ operand => parseNode operand (count + 1) (depth + 1)
    | .binary _ left right => do
      let count ← parseNode left (count + 1) (depth + 1)
      parseNode right count (depth + 1)

end JvmBridge
