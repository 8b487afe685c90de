/-
LiveProbe/NodeCapture.lean

What the Node agent reads of a capture: `safe-values.ts` and `safe-expression.ts`
on whatever objects the capture is made of, shared and cyclic ones included, and
the two renderers of log templates.

A capture is a `Heap`: what the tests of the agent tell of each value, and the
own data properties.  Accessors are never read, so they are no properties here.
On JSON values the evaluator is the one of `SafeExpression`
(`evaluateNode_ofValue`).
-/
import LiveProbe.CodePoints
import LiveProbe.ConditionEvaluator
import LiveProbe.NumberText

open JsString Binary64

/-! ### Captures -/

/-- What `typeof` and the tests of the agent tell of a value. -/
inductive Captured
  | truncated
  | undefined
  | null
  | boolean (b : Bool)
  | number (a : Double)
  | notFinite
  | string (s : JsString)
  | function
  | array
  | object
  deriving DecidableEq

/-- The values of a capture. -/
structure Heap (ν : Type) where
  captured : ν → Captured
  /-- the value of an own data property -/
  property : ν → JsString → Option ν

namespace NodeCapture

open Captured

variable {ν : Type} (heap : Heap ν)

/-! ### Dot paths -/

structure PathResult (ν : Type) where
  found : Bool
  truncated : Bool
  value : Option ν
  deriving DecidableEq

/-- The loop of `resolveDotPath`. -/
def followDots : List JsString → ν → PathResult ν
  | [], current => ⟨true, heap.captured current = .truncated, some current⟩
  | segment :: segments, current =>
    match heap.captured current with
    | .truncated => ⟨false, true, some current⟩
    | .array | .object =>
      match heap.property current segment with
      | none => ⟨false, false, none⟩
      | some next => followDots segments next
    | _ => ⟨false, false, none⟩

def resolveDotPath (root : ν) (path : JsString) : PathResult ν :=
  if !NodeAgent.isValidDotPath path then ⟨false, false, none⟩
  else followDots heap (path.splitOn 0x2E) root

/-! ### The renderer of dot paths -/

def renderValue : Captured → JsString
  | .truncated => js "[truncated]"
  | .null => js "null"
  | .string s => s
  | .number a => a.text
  | .boolean b => js (if b then "true" else "false")
  | .array => js "[array]"
  | .object => js "[object]"
  | .function => js "[function]"
  | .notFinite | .undefined => js "[unavailable]"

/-- What `template.replace` puts in the place of a match. -/
def renderPath (shouldRedact : JsString → Captured → Bool) (root : ν) (path : JsString) : JsString :=
  let resolved := resolveDotPath heap root path
  let value := (resolved.value.map heap.captured).getD .undefined
  if (resolved.found || resolved.truncated) && shouldRedact path value then js "[REDACTED]"
  else if resolved.truncated then js "[truncated]"
  else if resolved.found then renderValue value
  else js "[unavailable]"

/-- `template.replace(/\$\{([^{}]+)\}/gu, f)` from a cursor on. -/
def replaced (template : JsString) (f : JsString → JsString) : ℕ → List (ℕ × JsString) → JsString
  | cursor, [] => Expression.slice template cursor template.length
  | cursor, (index, body) :: rest =>
    Expression.slice template cursor index ++ f body ++ replaced template f (index + body.length + 3) rest

/-- `[...text].slice(0, n).join("")` -/
def firstPoints (n : ℕ) (text : JsString) : JsString := ((codePoints text).take n).flatMap pointUnits

def renderTemplate (template : JsString) (root : ν) (maxLength : ℕ)
    (shouldRedact : JsString → Captured → Bool) : JsString :=
  let rendered :=
    replaced template (renderPath heap shouldRedact root) 0 (Expression.templateMatches template)
  if (codePoints rendered).length ≤ maxLength then rendered else firstPoints maxLength rendered

/-! ### Expressions -/

/-- `ExpressionPolicy` -/
structure ExpressionPolicy where
  isRedactedKey : JsString → Bool
  isRedactedValue : Captured → Bool

def ofScalar : JsonScalar → Captured
  | .null => null
  | .bool b => boolean b
  | .num q => number (Double.ofRat false q)
  | .str s => string s

def isScalar : Captured → Bool
  | .null | .string _ | .boolean _ => true
  | .number a => NodeAgent.isPortableNumber a
  | _ => false

/-- A number that `isPortableNumber` refuses. -/
def isUnsafeNumber : Captured → Bool
  | .number a => !NodeAgent.isPortableNumber a
  | .notFinite => true
  | _ => false

def safeResult (policy : ExpressionPolicy) (value : Captured) : Except String Captured :=
  if isUnsafeNumber value then .error "unsafe-number"
  else if policy.isRedactedValue value then .error "redacted"
  else .ok value

def resolvePath (policy : ExpressionPolicy) : List PathSegment → ν → Except String Captured
  | [], current =>
    if heap.captured current = .truncated then .error "capture-truncated"
    else safeResult policy (heap.captured current)
  | segment :: path, current =>
    let key := Portable.segmentKey segment
    if policy.isRedactedKey key then .error "redacted"
    else
      match heap.captured current with
      | .truncated => .error "capture-truncated"
      | .array | .object =>
        match heap.property current key with
        | none => .error "missing"
        | some next => resolvePath policy path next
      | _ => .error "missing"

def numberPair : Captured → Captured → Option (Double × Double)
  | .number a, .number b =>
    if NodeAgent.isPortableNumber a && NodeAgent.isPortableNumber b then some (a, b) else none
  | _, _ => none

/-- `numericError`, of one operand or of two -/
def numericError (values : List Captured) : String :=
  if values.any isUnsafeNumber then "unsafe-number"
  else if values.length = 1 then "expected-number"
  else "expected-numbers"

def unary (policy : ExpressionPolicy) (operator : UnaryOperator) (operand : Captured) :
    Except String Captured :=
  match operator, operand with
  | .not, .boolean b => .ok (.boolean !b)
  | .not, _ => .error "expected-boolean"
  | .negate, .number a =>
    if NodeAgent.isPortableNumber a then safeResult policy (.number a.neg)
    else .error (numericError [operand])
  | .negate, _ => .error (numericError [operand])

/-- The end of `evaluateNode`: a number that may be infinite. -/
def finiteResult (policy : ExpressionPolicy) : Option Double → Except String Captured
  | some value => safeResult policy (.number value)
  | none => .error "non-finite-result"

def arithmetic (policy : ExpressionPolicy) (operator : BinaryOperator) (a b : Double) :
    Except String Captured :=
  if operator = .add then finiteResult policy (a.add b)
  else if operator = .subtract then finiteResult policy (a.sub b)
  else if operator = .multiply then finiteResult policy (a.mul b)
  else if operator = .divide then
    if b.value = 0 then .error "division-by-zero" else finiteResult policy (a.div b)
  else if b.value = 0 then .error "division-by-zero"
  else finiteResult policy (some (a.rem b))

/-- `===` on two scalars -/
def same : Captured → Captured → Bool
  | .null, .null => true
  | .boolean a, .boolean b => a = b
  | .number a, .number b => a.value = b.value
  | .string s, .string t => s = t
  | _, _ => false

/-- `evaluateNode` once both operands of a binary operator are evaluated -/
def binary (policy : ExpressionPolicy) (operator : BinaryOperator) (left right : Captured) :
    Except String Captured :=
  if operator = .eq ∨ operator = .ne then
    if !isScalar left || !isScalar right then .error "expected-scalars"
    else
      let equal := same left right
      .ok (.boolean (if operator = .eq then equal else !equal))
  else if operator = .gt ∨ operator = .gte ∨ operator = .lt ∨ operator = .lte then
    match numberPair left right with
    | none => .error (numericError [left, right])
    | some (a, b) =>
      if operator = .gt then .ok (.boolean (b.value < a.value))
      else if operator = .gte then .ok (.boolean (b.value ≤ a.value))
      else if operator = .lt then .ok (.boolean (a.value < b.value))
      else .ok (.boolean (a.value ≤ b.value))
  else
    match operator, left, right with
    | .add, .string s, .string t => safeResult policy (.string (s ++ t))
    | _, _, _ =>
      match numberPair left right with
      | none => .error (numericError [left, right])
      | some (a, b) => arithmetic policy operator a b

def evaluateNode (policy : ExpressionPolicy) (root : ν) : ExpressionNode → Except String Captured
  | .literal value => safeResult policy (ofScalar value)
  | .reference path => resolvePath heap policy path root
  | .unary operator operand => evaluateNode policy root operand >>= unary policy operator
  | .binary operator left right =>
    evaluateNode policy root left >>= fun left =>
      if operator = .and ∨ operator = .or then
        match left with
        | .boolean b =>
          if operator = .and ∧ b = false then .ok (.boolean false)
          else if operator = .or ∧ b = true then .ok (.boolean true)
          else
            evaluateNode policy root right >>= fun right =>
              match right with
              | .boolean c => .ok (.boolean c)
              | _ => .error "expected-boolean"
        | _ => .error "expected-boolean"
      else evaluateNode policy root right >>= binary policy operator left

def evaluateExpression (expression : CompiledExpression) (root : ν) (policy : ExpressionPolicy) :
    Except String Captured :=
  evaluateNode heap policy root expression.ast

/-! ### The renderer of expressions -/

def renderExpressionValue : Captured → JsString
  | .null => js "null"
  | .string s => s
  | .number a => a.text
  | .boolean b => js (if b then "true" else "false")
  | .array => js "[array]"
  | .object | .truncated => js "[object]"
  | .function | .notFinite | .undefined => js "[unavailable]"

/-- What a segment adds to the rendered text. -/
def renderSegment (policy : ExpressionPolicy) (root : ν) : TemplateSegment → JsString
  | .text value => value
  | .expression expression =>
    match evaluateExpression heap expression root policy with
    | .ok value => renderExpressionValue value
    | .error error => js "<expression-error:" ++ js error ++ js ">"

/-- The loop of `renderExpressionTemplate`: the texts that the segments add are
appended to `rendered` until the limit is reached. -/
def appended (maxLength : ℕ) : JsString → List JsString → JsString
  | rendered, [] => rendered
  | rendered, text :: texts =>
    if maxLength ≤ (codePoints (rendered ++ text)).length then firstPoints maxLength (rendered ++ text)
    else appended maxLength (rendered ++ text) texts

def renderExpressionTemplate (segments : List TemplateSegment) (root : ν) (maxLength : ℕ)
    (policy : ExpressionPolicy) : JsString :=
  appended maxLength [] (segments.map (renderSegment heap policy root))

/-! ### The policies of the agent -/

section

variable (lower : JsString → JsString) (config : NodeAgent.SerializerConfig)

/-- `redactValues.includes(value)` -/
def isRedactedValue : Captured → Bool
  | .string s => s ∈ config.redactValues
  | _ => false

/-- `#expressionPolicy` -/
def expressionPolicy : ExpressionPolicy where
  isRedactedKey key := NodeAgent.isRedactedKey lower key config
  isRedactedValue := isRedactedValue config

/-- `#shouldRedact` -/
def shouldRedact (path : JsString) (value : Captured) : Bool :=
  (path.splitOn 0x2E).any (fun segment => NodeAgent.isRedactedKey lower segment config) ||
    isRedactedValue config value

end

/-! ### JSON values -/

section

open Portable

def ofValue : Value → Captured
  | .null => null
  | .bool b => boolean b
  | .number a => number a
  | .string s => string s
  | .array _ => array
  | .object _ => object

/-- The captures that are JSON values. -/
def values : Heap Value := ⟨ofValue, NodeAgent.ownProperty⟩

/-- The same policy, on JSON values. -/
def ExpressionPolicy.onValues (policy : ExpressionPolicy) : NodeAgent.ExpressionPolicy where
  isRedactedKey := policy.isRedactedKey
  isRedactedValue value := policy.isRedactedValue (ofValue value)

variable (policy : ExpressionPolicy)

theorem ofValue_ofScalar (v : JsonScalar) : ofValue (Value.ofScalar v) = ofScalar v := by
  cases v with
  | null | bool b | num q | str s => rfl

theorem isScalar_ofValue (v : Value) : isScalar (ofValue v) = NodeAgent.isScalar v := by
  cases v with
  | null | bool b | number a | string s | array items | object members => rfl

theorem same_ofValue (v w : Value) : same (ofValue v) (ofValue w) = Value.same v w := by
  cases v <;> cases w <;> rfl

theorem safeResult_onValues (policy : NodeAgent.ExpressionPolicy) (v : Value) :
    NodeAgent.safeResult policy v =
      if isUnsafeNumber (ofValue v) then .error "unsafe-number"
      else if policy.isRedactedValue v then .error "redacted"
      else .ok v := by
  cases v with
  | null | bool b | number a | string s | array items | object members => rfl

theorem safeResult_ofValue (v : Value) :
    safeResult policy (ofValue v) = (NodeAgent.safeResult policy.onValues v).map ofValue := by
  rw [safeResult_onValues, safeResult]
  show _ = Except.map ofValue (if _ then _ else if policy.isRedactedValue (ofValue v) then _ else _)
  cases isUnsafeNumber (ofValue v) with
  | true => rfl
  | false =>
    cases policy.isRedactedValue (ofValue v) with
    | true | false => rfl

theorem resolvePath_ofValue (path : List PathSegment) (current : Value) :
    resolvePath values policy path current =
      (NodeAgent.resolvePath policy.onValues path current).map ofValue := by
  induction path generalizing current with
  | nil =>
    show (if ofValue current = .truncated then _ else safeResult policy (ofValue current)) = _
    rw [if_neg (by cases current <;> exact nofun)]
    exact safeResult_ofValue policy current
  | cons segment path ih =>
    rw [resolvePath, NodeAgent.resolvePath]
    show (if policy.isRedactedKey (segmentKey segment) then _ else _) =
      Except.map ofValue (if policy.isRedactedKey (segmentKey segment) then _ else _)
    cases policy.isRedactedKey (segmentKey segment) with
    | true => rfl
    | false =>
      have hproperty : values.property current (segmentKey segment) =
        NodeAgent.ownProperty current (segmentKey segment) := rfl
      cases current with
      | array items | object members =>
        rw [hproperty]
        rcases NodeAgent.ownProperty _ (segmentKey segment) with - | next
        · rfl
        · exact ih next
      | null | bool b | number a | string s => rfl

theorem numberPair_ofValue (v w : Value) :
    numberPair (ofValue v) (ofValue w) = NodeAgent.numberPair v w := by
  cases v <;> cases w <;> rfl

theorem isUnsafeNumber_ofValue (v : Value) :
    isUnsafeNumber (ofValue v) =
      match v with
      | .number a => !NodeAgent.isPortableNumber a
      | _ => false := by
  cases v with
  | null | bool b | number a | string s | array items | object members => rfl

theorem numericError_ofValue (operands : List Value) :
    numericError (operands.map ofValue) = NodeAgent.numericError operands := by
  unfold numericError NodeAgent.numericError
  rw [List.any_map, List.length_map]
  have hrefused : isUnsafeNumber ∘ ofValue = fun v =>
      match v with
      | .number a => !NodeAgent.isPortableNumber a
      | _ => false := by
    funext v
    exact isUnsafeNumber_ofValue v
  exact congrArg (fun refused : Value → Bool =>
    if operands.any refused then "unsafe-number"
    else if operands.length = 1 then "expected-number" else "expected-numbers") hrefused

theorem finiteResult_ofValue (value : Option Double) :
    finiteResult policy value = (NodeAgent.finiteResult policy.onValues value).map ofValue := by
  cases value with
  | none => rfl
  | some a => exact safeResult_ofValue policy (.number a)

theorem arithmetic_ofValue (operator : BinaryOperator) (a b : Double) :
    arithmetic policy operator a b = (NodeAgent.arithmetic policy.onValues operator a b).map ofValue := by
  unfold arithmetic NodeAgent.arithmetic
  simp only [finiteResult_ofValue]
  split_ifs with h <;> rfl

theorem unary_ofValue (operator : UnaryOperator) (v : Value) :
    unary policy operator (ofValue v) = (NodeAgent.unary policy.onValues operator v).map ofValue := by
  have herror := numericError_ofValue [v]
  cases operator with
  | not =>
    cases v with
    | null | bool b | number a | string s | array items | object members => rfl
  | negate =>
    cases v with
    | number a =>
      show (if NodeAgent.isPortableNumber a then safeResult policy (ofValue (.number a.neg)) else _) =
        Except.map ofValue (if NodeAgent.isPortableNumber a then _ else _)
      rw [safeResult_ofValue]
      split_ifs with hportable
      · rfl
      · exact congrArg Except.error herror
    | null | bool b | string s | array items | object members => exact congrArg Except.error herror

/-- The last branch of `binary`, of operands that are not both texts to be joined. -/
theorem onNumbers_ofValue (operator : BinaryOperator) (v w : Value) :
    (match NodeAgent.numberPair v w with
      | none => .error (numericError [ofValue v, ofValue w])
      | some (a, b) => arithmetic policy operator a b) =
      Except.map ofValue
        (match NodeAgent.numberPair v w with
          | none => .error (NodeAgent.numericError [v, w])
          | some (a, b) => NodeAgent.arithmetic policy.onValues operator a b) := by
  rcases NodeAgent.numberPair v w with - | ⟨a, b⟩
  · exact congrArg Except.error (numericError_ofValue [v, w])
  · exact arithmetic_ofValue policy operator a b

theorem binary_ofValue (operator : BinaryOperator) (v w : Value) :
    binary policy operator (ofValue v) (ofValue w) =
      (NodeAgent.binary policy.onValues operator v w).map ofValue := by
  unfold binary NodeAgent.binary
  rw [isScalar_ofValue, isScalar_ofValue, same_ofValue, numberPair_ofValue]
  by_cases hequality : operator = .eq ∨ operator = .ne
  · rw [if_pos hequality, if_pos hequality]
    split_ifs <;> rfl
  rw [if_neg hequality, if_neg hequality]
  by_cases horder : operator = .gt ∨ operator = .gte ∨ operator = .lt ∨ operator = .lte
  · rw [if_pos horder, if_pos horder]
    rcases NodeAgent.numberPair v w with - | ⟨a, b⟩
    · exact congrArg Except.error (numericError_ofValue [v, w])
    · dsimp only
      split_ifs <;> rfl
  · rw [if_neg horder, if_neg horder]
    have hrest := onNumbers_ofValue policy operator v w
    cases operator with
    | add =>
      cases v with
      | string s =>
        cases w with
        | string t => exact safeResult_ofValue policy (.string (s ++ t))
        | null | bool b | number a | array items | object members => exact hrest
      | null | bool b | number a | array items | object members => exact hrest
    | subtract | multiply | divide | modulo | eq | ne | gt | gte | lt | lte | and | or => exact hrest

/-- **On JSON values the evaluator is the one of `SafeExpression`.** -/
theorem evaluateNode_ofValue (root : Value) (node : ExpressionNode) :
    evaluateNode values policy root node =
      (NodeAgent.evaluateNode policy.onValues root node).map ofValue := by
  induction node with
  | literal scalar =>
    rw [evaluateNode, ← ofValue_ofScalar]
    exact safeResult_ofValue policy _
  | reference path => exact resolvePath_ofValue policy path root
  | unary operator operand ih =>
    rw [evaluateNode, NodeAgent.evaluateNode, ih]
    rcases NodeAgent.evaluateNode policy.onValues root operand with - | v
    · rfl
    · exact unary_ofValue policy operator v
  | binary operator left right ihl ihr =>
    rw [evaluateNode, NodeAgent.evaluateNode, ihl, ihr]
    rcases NodeAgent.evaluateNode policy.onValues root left with - | v
    · rfl
    · show (if operator = .and ∨ operator = .or then _ else _) =
        Except.map ofValue (if operator = .and ∨ operator = .or then _ else _)
      rcases NodeAgent.evaluateNode policy.onValues root right with - | w
      · split_ifs
        · cases v with
          | bool b =>
            dsimp only [ofValue]
            split_ifs <;> rfl
          | null | number a | string s | array items | object members => rfl
        · rfl
      · split_ifs
        · cases v with
          | bool b =>
            dsimp only [ofValue]
            split_ifs
            · rfl
            · rfl
            · cases w with
              | null | bool c | number a | string s | array items | object members => rfl
          | null | number a | string s | array items | object members => rfl
        · exact binary_ofValue policy operator v w

end

end NodeCapture
