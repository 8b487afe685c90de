/-
LiveProbe/Expression.lean

The safe expressions of probes: `expression.ts` of the broker.  A source text
is parsed by jsep and the tree is converted to a small AST of literals,
property references, two unary and thirteen binary operators; a log template
with anything but plain dot paths in its `${…}` is cut into segments.

jsep itself is a package outside the repository.  It is the parameter `jsep`,
a function from a text to a tree or to the message it throws.
-/
import LiveProbe.Schema
import Mathlib.Data.Rat.Defs

open JsString

/-! ### Syntax -/

/-- `ExpressionScalar`, also the value of a condition. -/
inductive JsonScalar
  | str (s : JsString)
  | num (q : ℚ)
  | bool (b : Bool)
  | null
  deriving DecidableEq, Repr

/-- `ExpressionPathSegment` -/
inductive PathSegment
  | name (s : JsString)
  | index (n : ℕ)
  deriving DecidableEq, Repr

inductive UnaryOperator
  | not | negate
  deriving DecidableEq, Repr

inductive BinaryOperator
  | add | subtract | multiply | divide | modulo
  | eq | ne | gt | gte | lt | lte | and | or
  deriving DecidableEq, Repr

/-- `ExpressionNode` -/
inductive ExpressionNode
  | literal (value : JsonScalar)
  | reference (path : List PathSegment)
  | unary (operator : UnaryOperator) (operand : ExpressionNode)
  | binary (operator : BinaryOperator) (left right : ExpressionNode)
  deriving DecidableEq, Repr

structure CompiledExpression where
  source : JsString
  ast : ExpressionNode
  deriving DecidableEq, Repr

inductive TemplateSegment
  | text (value : JsString)
  | expression (expression : CompiledExpression)
  deriving DecidableEq, Repr

/-! ### The trees of jsep -/

/-- The value of a jsep literal; `other` is neither a JSON scalar nor a number
(a regular expression), `nonFinite` a numeral too large for a double. -/
inductive JsepLiteral
  | str (s : JsString)
  | num (q : ℚ)
  | nonFinite
  | bool (b : Bool)
  | null
  | other
  deriving DecidableEq, Repr

inductive JsepNode
  | literal (value : JsepLiteral)
  | identifier (name : JsString)
  | member (computed optional : Bool) (object property : JsepNode)
  | unary (operator : JsString) (argument : JsepNode)
  | binary (operator : JsString) (left right : JsepNode)
  | other (type : JsString)
  deriving DecidableEq, Repr

namespace Expression

/-! ### Conversion -/

def maxSourceLength : ℕ := 4096
def maxAstDepth : ℕ := 20
def maxAstNodes : ℕ := 100
def maxPathSegments : ℕ := 64

def forbiddenSegments : List JsString := [js "__proto__", js "prototype", js "constructor"]

/-- `binaryOperators` -/
def binaryOperators : List (JsString × BinaryOperator) :=
  [(js "+", .add), (js "-", .subtract), (js "*", .multiply), (js "/", .divide),
   (js "%", .modulo), (js "==", .eq), (js "===", .eq), (js "!=", .ne), (js "!==", .ne),
   (js ">", .gt), (js ">=", .gte), (js "<", .lt), (js "<=", .lte), (js "&&", .and),
   (js "||", .or)]

/-- `expressionError` -/
def expressionError {α : Type} (message : JsString) : Except JsString α :=
  .error (js "invalid safe expression: " ++ message)

/-- A finite number is admitted unless it is an integer out of the safe range. -/
def safeNumber (q : ℚ) : Bool := q.den ≠ 1 || q.num.natAbs ≤ Schema.maxSafeInteger

/-- `safeSegment` on a string -/
def safeName (s : JsString) : Except JsString PathSegment :=
  if s.length = 0 ∨ s.length > 128 ∨ s ∈ forbiddenSegments then
    expressionError (js "property segment is not allowed")
  else .ok (.name s)

/-- `safeSegment` on the value of a computed property -/
def safeSegment : JsepNode → Except JsString PathSegment
  | .literal (.str s) => safeName s
  | .literal (.num q) =>
    if q.den = 1 ∧ 0 ≤ q.num ∧ q.num.toNat ≤ Schema.maxSafeInteger then .ok (.index q.num.toNat)
    else expressionError (js "computed properties require a string or integer literal")
  | _ => expressionError (js "computed properties require a string or integer literal")

def referencePath : JsepNode → Except JsString (List PathSegment)
  | .identifier name => do return [← safeName name]
  | .member computed optional object property => do
    if optional then expressionError (js "optional chaining is not supported")
    let base ← referencePath object
    let segment ←
      if computed then safeSegment property
      else match property with
        | .identifier name => safeName name
        | _ => expressionError (js "property access must use a fixed name")
    if (base ++ [segment]).length > maxPathSegments then
      expressionError (js "property path is too deep")
    return base ++ [segment]
  | _ => expressionError (js "member access must start at a local variable")

/-- The literals that are JSON scalars. -/
def literalValue : JsepLiteral → Except JsString JsonScalar
  | .str s => .ok (.str s)
  | .bool b => .ok (.bool b)
  | .null => .ok .null
  | .num q =>
    if safeNumber q then .ok (.num q)
    else expressionError
      (js "only finite JSON scalar literals within the safe integer range are supported")
  | _ => expressionError
      (js "only finite JSON scalar literals within the safe integer range are supported")

/-- `convert`.  The count of nodes is threaded through the tree; the result
carries the count after the node. -/
def convert : JsepNode → ℕ → ℕ → Except JsString (ExpressionNode × ℕ)
  | node, nodes, depth => do
    if nodes + 1 > maxAstNodes then expressionError (js "expression has too many nodes")
    if depth > maxAstDepth then expressionError (js "expression is too deeply nested")
    match node with
    | .literal value => return (.literal (← literalValue value), nodes + 1)
    | .identifier name => return (.reference (← referencePath (.identifier name)), nodes + 1)
    | .member computed optional object property =>
      return (.reference (← referencePath (.member computed optional object property)), nodes + 1)
    | .unary operator argument =>
      let op ← if operator = js "!" then .ok .not
        else if operator = js "-" then .ok .negate
        else expressionError (js "unary operator " ++ operator ++ js " is not supported")
      let (operand, count) ← convert argument (nodes + 1) (depth + 1)
      return (.unary op operand, count)
    | .binary operator left right =>
      let op ← match binaryOperators.lookup operator with
        | some op => .ok op
        | none => expressionError (js "binary operator " ++ operator ++ js " is not supported")
      let (l, count) ← convert left (nodes + 1) (depth + 1)
      let (r, count) ← convert right count (depth + 1)
      return (.binary op l r, count)
    | .other type => expressionError (type ++ js " is not supported")

section

variable (jsep : JsString → Except JsString JsepNode)

def compileExpression (source : JsString) : Except JsString CompiledExpression := do
  let normalized := trim source
  if normalized.length = 0 ∨ normalized.length > maxSourceLength then
    expressionError (js "source must contain 1 to 4096 characters")
  let parsed ← match jsep normalized with
    | .ok parsed => .ok parsed
    | .error detail => expressionError detail
  let (ast, _) ← convert parsed 0 0
  return { source := normalized, ast }

end

/-! ### Templates -/

/-- What `${…}` holds at the head of a text: the units that satisfy `inside`
up to a closing brace, when they satisfy `ok`. -/
def interpolationAt (inside : UInt16 → Bool) (ok : JsString → Bool) :
    JsString → Option JsString
  | 0x24 :: 0x7B :: r =>
    let body := r.takeWhile inside
    match r.drop body.length with
    | 0x7D :: _ => if ok body then some body else none
    | _ => none
  | _ => none

/-- `matchAll`: the matches from left to right with their positions.  `skip`
counts the units of a match that are still to be passed over. -/
def matchAll (inside : UInt16 → Bool) (ok : JsString → Bool) :
    ℕ → ℕ → JsString → List (ℕ × JsString)
  | _, _, [] => []
  | index, skip + 1, _ :: t => matchAll inside ok (index + 1) skip t
  | index, 0, c :: t =>
    match interpolationAt inside ok (c :: t) with
    | some body => (index, body) :: matchAll inside ok (index + 1) (body.length + 2) t
    | none => matchAll inside ok (index + 1) 0 t

/-- `/\$\{([^{}]+)\}/gu` -/
def templateMatches (template : JsString) : List (ℕ × JsString) :=
  matchAll (fun c => c ≠ 0x7B && c ≠ 0x7D) (fun body => body ≠ []) 0 0 template

def isAlpha (c : UInt16) : Bool := (0x41 ≤ c && c ≤ 0x5A) || (0x61 ≤ c && c ≤ 0x7A)

/-- `[A-Za-z_$]` -/
def isNameStart (c : UInt16) : Bool := isAlpha c || c = 0x5F || c = 0x24

/-- `LEGACY_DOT_SEGMENT` -/
def isLegacyDotSegment (s : JsString) : Bool :=
  match s with
  | [] => false
  | c :: t =>
    (isNameStart c && t.all fun d => isNameStart d || isDigit d) || s = js "0" ||
      (isDigit c && c ≠ 0x30 && t.all isDigit)

def isLegacyDotPath (source : JsString) : Bool :=
  decide (0 < source.length) && decide (source.length ≤ 1024) &&
    (source.splitOn 0x2E).all fun segment =>
      decide (segment.length ≤ 128) && isLegacyDotSegment segment &&
        decide (segment ∉ forbiddenSegments)

/-- `template.slice(from, to)` -/
def slice (s : JsString) (start stop : ℕ) : JsString := (s.take stop).drop start

section

variable (jsep : JsString → Except JsString JsepNode)

/-- The loop of `compileTemplate` from a cursor on. -/
def templateSegments (template : JsString) :
    ℕ → List (ℕ × JsString) → Except JsString (List TemplateSegment)
  | cursor, [] =>
    .ok (if cursor < template.length then
      [.text (slice template cursor template.length)] else [])
  | cursor, (index, body) :: rest => do
    let expression ← compileExpression jsep body
    let tail ← templateSegments template (index + body.length + 3) rest
    return (if cursor < index then [.text (slice template cursor index)] else []) ++
      .expression expression :: tail

def compileTemplate (template : JsString) : Except JsString (Option (List TemplateSegment)) :=
  let found := templateMatches template
  if found = [] ∨ found.all (fun m => isLegacyDotPath (trim m.2)) then .ok none
  else (templateSegments jsep template 0 found).map some

end

end Expression
