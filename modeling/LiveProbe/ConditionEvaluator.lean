/-
LiveProbe/ConditionEvaluator.lean

The condition of a probe in the three agents: `matchesCondition` of
`safe-values.ts`, `condition_matches` of `runtime.py` and
`ConditionEvaluator.java`.  Each follows a dot path through the captured
variables, one segment at a time, and compares what it comes to with a scalar.

The agents differ in the step.  Node reads own properties, so an array has a
`length`.  Python reads an index in any decimal digits and looks up the attributes
of everything that is no `dict`; `Interpreter` stands for those attributes.  Java
reads an index with `Integer.parseInt`, signs included; `Platform` stands for its
tables of digits and for `Double.toString`.
-/
import LiveProbe.JvmExpression
import LiveProbe.Protocol
import LiveProbe.PythonExpression

open JsString Binary64 Portable

/-! ### Node -/

namespace NodeAgent

open Value

def isValidDotPath (path : JsString) : Bool :=
  if path.length = 0 ∨ 1024 < path.length then false
  else
    let segments := path.splitOn 0x2E
    segments.length ≤ 64 && segments.all fun segment => 0 < segment.length && segment.length ≤ 128

/-- `resolveDotPath`; nothing is not found. -/
def resolveDotPath (root : Value) (path : JsString) : Option Value :=
  if !isValidDotPath path then none else (path.splitOn 0x2E).foldlM ownProperty root

/-- `isJsonScalar`; every number here is finite. -/
def isJsonScalar : Value → Bool
  | .null | .string _ | .bool _ | .number _ => true
  | .array _ | .object _ => false

/-- The `switch` of `matchesCondition`, on two scalars. -/
def compares (op : ConditionOp) (actual expected : Value) : Bool :=
  match op with
  | .eq => same actual expected
  | .ne => !same actual expected
  | op =>
    match actual, expected with
    | .number a, .number b =>
      if op = .gt then b.value < a.value
      else if op = .gte then b.value ≤ a.value
      else if op = .lt then a.value < b.value
      else a.value ≤ b.value
    | _, _ => false

def matchesCondition (root : Value) (condition : Option Condition) : Bool :=
  match condition with
  | none => true
  | some condition =>
    match resolveDotPath root condition.path with
    | none => false
    | some actual =>
      if !isJsonScalar actual || !isJsonScalar (ofScalar condition.value) then false
      else compares condition.op actual (ofScalar condition.value)

end NodeAgent

/-! ### Python -/

namespace PythonAgent

/-- A captured value, or an object that an attribute of one leads to. -/
inductive PyObject (Other : Type)
  | value (v : PyValue)
  | other (o : Other)

/-- What the interpreter knows of texts and of objects. -/
structure Interpreter (Other : Type) where
  unicode : Unicode
  /-- `inspect.getattr_static`, unless it is a data descriptor -/
  getattrStatic : PyValue → PyString → Option (PyObject Other)
  /-- the step from an object that was not captured -/
  step : Other → PyString → Option (PyObject Other)

/-- `Condition` -/
structure PyCondition where
  path : PyString
  op : ConditionOp
  value : PyValue

/-- A scalar as `json` reads it. -/
def PyValue.ofScalar : JsonScalar → PyValue
  | .null => none
  | .bool b => bool b
  | .num q => number (if q.den = 1 then .int q.num else .float (Double.ofRat false q))
  | .str s => str (codePoints s)

def PyCondition.ofCondition (condition : Condition) : PyCondition where
  path := codePoints condition.path
  op := condition.op
  value := .ofScalar condition.value

section

variable {Other : Type} (interpreter : Interpreter Other)

/-- One turn of the loop of `resolve_dot_path`, on a segment that is not empty. -/
def dotStep (current : PyObject Other) (segment : PyString) : Option (PyObject Other) :=
  match current with
  | .value (.dict members) => (ownDictValue members segment).map .value
  | .value (.list items) =>
    if isdecimal interpreter.unicode segment then
      let index := toInt interpreter.unicode segment
      if items.length ≤ index then none else items[index]?.map fun item => .value (.ofJson item)
    else interpreter.getattrStatic (.list items) segment
  | .value current => interpreter.getattrStatic current segment
  | .other o => interpreter.step o segment

/-- `resolve_dot_path`; nothing is `_MISSING`. -/
def resolveDotPath (root : PyObject Other) (path : PyString) : Option (PyObject Other) :=
  if path = [] then none
  else
    (path.splitOn 0x2E).foldlM
      (fun current segment => if segment = [] then none else dotStep interpreter current segment) root

/-- `_number` of the runtime; every `float` here is finite. -/
def asNumber : PyObject Other → Option PyNumber
  | .value (.number n) => some n
  | _ => none

/-- `type(actual) is type(expected) and actual == expected`, for a scalar other than a
number -/
def sameTyped : PyObject Other → PyValue → Bool
  | .value .none, .none => true
  | .value (.bool a), .bool b => a = b
  | .value (.str s), .str t => s = t
  | _, _ => false

/-- `condition_matches` once the path is resolved -/
def compares (op : ConditionOp) (actual : PyObject Other) (expected : PyValue) : Bool :=
  if op = .eq ∨ op = .ne then
    let equal :=
      match asNumber actual, asNumber (PyObject.value expected : PyObject Other) with
      | some m, some n => decide (m.value = n.value)
      | _, _ => sameTyped actual expected
    if op = .eq then equal else !equal
  else
    match asNumber actual, asNumber (PyObject.value expected : PyObject Other) with
    | some m, some n =>
      if op = .gt then n.value < m.value
      else if op = .gte then n.value ≤ m.value
      else if op = .lt then m.value < n.value
      else m.value ≤ n.value
    | _, _ => false

def conditionMatches (condition : Option PyCondition) (captured : List (JsString × Json)) : Bool :=
  match condition with
  | none => true
  | some condition =>
    match resolveDotPath interpreter (.value (.dict captured)) condition.path with
    | none => false
    | some actual => compares condition.op actual condition.value

end

end PythonAgent

/-! ### Java -/

namespace JvmBridge.ConditionEvaluator

/-- What the platform knows of digits and of the texts of doubles. -/
structure Platform where
  /-- `Character.digit(c, 10)` -/
  digit : UInt16 → Option ℕ
  digit_ascii : ∀ c, isDigit c = true → digit c = some (c.toNat - 0x30)
  digit_letter : ∀ c : UInt16, 0x61 ≤ c → c ≤ 0x7A → digit c = none
  /-- the number that `Double.toString` writes -/
  shortest : Double → ℚ

/-- `Protocol.Condition` -/
structure JvmCondition where
  path : JsString
  op : ConditionOp
  value : JvmValue

section

variable (platform : Platform)

/-- The number a text of digits denotes. -/
def digits (s : JsString) : Option ℕ :=
  if s ≠ [] ∧ s.all fun c => (platform.digit c).isSome then
    some (s.foldl (fun n c => 10 * n + (platform.digit c).getD 0) 0)
  else none

/-- `Integer.parseInt`; nothing is a `NumberFormatException`. -/
def parseInt : JsString → Option ℤ
  | [] => none
  | c :: t =>
    if c = 0x2D then
      (digits platform t).bind fun n => if n ≤ 2 ^ 31 then some (-(n : ℤ)) else none
    else
      (digits platform (if c = 0x2B then t else c :: t)).bind fun n =>
        if n < 2 ^ 31 then some (n : ℤ) else none

/-- `arrayIndex`; nothing is `-1`. -/
def arrayIndex (segment : JsString) : Option ℕ :=
  if segment = [] then none
  else if 1 < segment.length ∧ segment.head? = some 0x30 then none
  else
    match parseInt platform segment with
    | some index => if index < 0 then none else some index.toNat
    | none => none

/-- One turn of the loop of `resolveOrMissing`, on a segment that is not empty. -/
def dotStep (current : JvmValue) (segment : JsString) : Option JvmValue :=
  match current with
  | .map members => (members.find? fun m => m.1 = segment).map fun m => .ofJson m.2
  | .list items => do
    let index ← arrayIndex platform segment
    if items.length ≤ index then none else items[index]?.map .ofJson
  | _ => none

/-- `resolveOrMissing`; nothing is `MISSING`. -/
def resolveOrMissing (root : JvmValue) (path : JsString) : Option JvmValue :=
  if path = [] then none
  else
    (path.splitOn 0x2E).foldlM
      (fun current segment => if segment = [] then none else dotStep platform current segment) root

def isScalar : JvmValue → Bool
  | .null | .string _ | .bool _ | .number _ => true
  | .list _ | .map _ => false

/-- `decimal`: `new BigDecimal(number.toString())` -/
def decimalValue : JvmNumber → ℚ
  | .integer z => z
  | .decimal q => q
  | .double a => platform.shortest a

/-- `scalarEquals`; every number here is finite. -/
def scalarEquals : JvmValue → JvmValue → Bool
  | .null, .null => true
  | .number m, .number n => decimalValue platform m = decimalValue platform n
  | .string s, .string t => s = t
  | .bool a, .bool b => a = b
  | _, _ => false

/-- `compareNumbers` -/
def compareNumbers : JvmValue → JvmValue → Option Ordering
  | .number m, .number n => some (compare (decimalValue platform m) (decimalValue platform n))
  | _, _ => none

/-- The `switch` of `evaluate` -/
def compares (op : ConditionOp) (actual expected : JvmValue) : Bool :=
  let comparison := compareNumbers platform actual expected
  match op with
  | .eq => scalarEquals platform actual expected
  | .ne => !scalarEquals platform actual expected && isScalar actual && isScalar expected
  | .gt => comparison = some .gt
  | .gte => comparison = some .gt ∨ comparison = some .eq
  | .lt => comparison = some .lt
  | .lte => comparison = some .lt ∨ comparison = some .eq

def evaluate (locals : List (JsString × Json)) (condition : Option JvmCondition) : Bool :=
  match condition with
  | none => true
  | some condition =>
    match resolveOrMissing platform (.map locals) condition.path with
    | none => false
    | some actual => compares platform condition.op actual condition.value

end

end JvmBridge.ConditionEvaluator
