/-
LiveProbe/SafeExpression.lean

The expression evaluator of the Node agent: `safe-expression.ts`, with the
redaction policy that `probe-manager.ts` hands it.  It evaluates an expression
as `Portable.value` does (`evaluateNode_agrees`), except that a path may also end
in the `length` of an array.

`toLocaleLowerCase` is the parameter `lower`.  The marker of a truncated capture
is no JSON value, so the two tests for it never succeed here.
-/
import LiveProbe.Portable

open JsString Binary64 Outcome

namespace NodeAgent

open Portable Value

/-! ### Redaction -/

/-- `SerializerConfig`, as far as redaction reads it. -/
structure SerializerConfig where
  redactKeys : List JsString
  redactValues : List JsString
  deriving DecidableEq, Repr

/-- `DEFAULT_REDACT_KEYS` -/
def defaultRedactKeys : List JsString :=
  [js "password", js "secret", js "token", js "authorization", js "cookie", js "key",
   js "signature", js "ssn", js "creditcard"]

/-- `text.includes(pattern)` -/
def includes (text pattern : JsString) : Bool := decide (pattern <:+: text)

section

variable (lower : JsString → JsString)

/-- `uniquePatterns` -/
def uniquePatterns (defaults extras : List JsString) : List JsString :=
  (defaults ++ extras).foldl (fun patterns pattern =>
    let normalized := lower pattern
    if 0 < normalized.length ∧ normalized ∉ patterns then patterns ++ [normalized]
    else patterns) []

/-- `normalizeSerializerConfig` -/
def normalizeSerializerConfig (redactKeys redactValues : List JsString) : SerializerConfig where
  redactKeys := uniquePatterns lower defaultRedactKeys redactKeys
  redactValues := redactValues.eraseDups

def isRedactedKey (key : JsString) (config : SerializerConfig) : Bool :=
  let normalized := lower key
  config.redactKeys.any fun pattern => includes normalized pattern

/-- `ExpressionPolicy` -/
structure ExpressionPolicy where
  isRedactedKey : JsString → Bool
  isRedactedValue : Value → Bool

/-- `#expressionPolicy` -/
def expressionPolicy (config : SerializerConfig) : ExpressionPolicy where
  isRedactedKey key := isRedactedKey lower key config
  isRedactedValue
    | .string s => s ∈ config.redactValues
    | _ => false

end

/-! ### Results -/

def isPortableNumber (value : Double) : Bool :=
  value.value.den ≠ 1 || value.value.num.natAbs ≤ Schema.maxSafeInteger

def isScalar : Value → Bool
  | .number a => isPortableNumber a
  | .array _ | .object _ => false
  | _ => true

def safeResult (policy : ExpressionPolicy) (value : Value) : Except String Value :=
  let portable :=
    match value with
    | .number a => isPortableNumber a
    | _ => true
  if !portable then .error "unsafe-number"
  else if policy.isRedactedValue value then .error "redacted"
  else .ok value

def numberPair : Value → Value → Option (Double × Double)
  | .number a, .number b => if isPortableNumber a && isPortableNumber b then some (a, b) else none
  | _, _ => none

/-- `numericError`, of one operand or of two -/
def numericError (values : List Value) : String :=
  let unsafeNumber : Value → Bool
    | .number a => !isPortableNumber a
    | _ => false
  if values.any unsafeNumber then "unsafe-number"
  else if values.length = 1 then "expected-number"
  else "expected-numbers"

/-! ### Validation -/

def validPathSegment : PathSegment → Bool
  | .name s => 0 < s.length && s.length ≤ 128 && s ∉ Expression.forbiddenSegments
  | .index n => n ≤ Schema.maxSafeInteger

/-- `validateNode`: the count of nodes after an admitted node. -/
def validateNode (node : ExpressionNode) (count depth : ℕ) : Option ℕ :=
  if 100 < count + 1 ∨ 20 < depth then none
  else
    match node with
    | .literal value => if isScalar (ofScalar value) then some (count + 1) else none
    | .reference path =>
      if 0 < path.length ∧ path.length ≤ 64 ∧ path.all validPathSegment then some (count + 1)
      else none
    | .unary _ operand => validateNode operand (count + 1) (depth + 1)
    | .binary _ left right => do
      let count ← validateNode left (count + 1) (depth + 1)
      validateNode right count (depth + 1)

/-! ### Paths -/

/-- The data properties of a captured value: `Object.getOwnPropertyDescriptor`. -/
def ownProperty (current : Value) (key : JsString) : Option Value :=
  match current with
  | .object members => ((Json.obj members).get? key).map ofJson
  | .array items =>
    if key = js "length" then some (.number (Double.ofRat false items.length))
    else (element items key).map ofJson
  | _ => none

def resolvePath (policy : ExpressionPolicy) : List PathSegment → Value → Except String Value
  | [], current => safeResult policy current
  | segment :: path, current =>
    let key := segmentKey segment
    if policy.isRedactedKey key then .error "redacted"
    else
      match ownProperty current key with
      | none => .error "missing"
      | some value => resolvePath policy path value

/-! ### Operators -/

def unary (policy : ExpressionPolicy) (operator : UnaryOperator) (operand : Value) :
    Except String Value :=
  match operator, operand with
  | .not, .bool b => .ok (.bool !b)
  | .not, _ => .error "expected-boolean"
  | .negate, .number a =>
    if isPortableNumber a then safeResult policy (.number a.neg)
    else .error (numericError [operand])
  | .negate, _ => .error (numericError [operand])

/-- The end of `evaluateNode`: a number that may be infinite. -/
def finiteResult (policy : ExpressionPolicy) : Option Double → Except String Value
  | some value => safeResult policy (.number value)
  | none => .error "non-finite-result"

def arithmetic (policy : ExpressionPolicy) (operator : BinaryOperator) (a b : Double) :
    Except String Value :=
  if operator = .add then finiteResult policy (a.add b)
  else if operator = .subtract then finiteResult policy (a.sub b)
  else if operator = .multiply then finiteResult policy (a.mul b)
  else if operator = .divide then
    if b.value = 0 then .error "division-by-zero" else finiteResult policy (a.div b)
  else if b.value = 0 then .error "division-by-zero"
  else finiteResult policy (some (a.rem b))

/-- `evaluateNode` once both operands of a binary operator are evaluated -/
def binary (policy : ExpressionPolicy) (operator : BinaryOperator) (left right : Value) :
    Except String Value :=
  if operator = .eq ∨ operator = .ne then
    if !isScalar left || !isScalar right then .error "expected-scalars"
    else
      let equal := same left right
      .ok (.bool (if operator = .eq then equal else !equal))
  else if operator = .gt ∨ operator = .gte ∨ operator = .lt ∨ operator = .lte then
    match numberPair left right with
    | none => .error (numericError [left, right])
    | some (a, b) =>
      if operator = .gt then .ok (.bool (b.value < a.value))
      else if operator = .gte then .ok (.bool (b.value ≤ a.value))
      else if operator = .lt then .ok (.bool (a.value < b.value))
      else .ok (.bool (a.value ≤ b.value))
  else
    match operator, left, right with
    | .add, .string s, .string t => safeResult policy (.string (s ++ t))
    | _, _, _ =>
      match numberPair left right with
      | none => .error (numericError [left, right])
      | some (a, b) => arithmetic policy operator a b

def evaluateNode (policy : ExpressionPolicy) (root : Value) : ExpressionNode → Except String Value
  | .literal value => safeResult policy (ofScalar value)
  | .reference path => resolvePath policy path root
  | .unary operator operand =>
    evaluateNode policy root operand >>= unary policy operator
  | .binary operator left right =>
    evaluateNode policy root left >>= fun left =>
      if operator = .and ∨ operator = .or then
        match left with
        | .bool b =>
          if operator = .and ∧ b = false then .ok (.bool false)
          else if operator = .or ∧ b = true then .ok (.bool true)
          else
            evaluateNode policy root right >>= fun right =>
              match right with
              | .bool c => .ok (.bool c)
              | _ => .error "expected-boolean"
        | _ => .error "expected-boolean"
      else evaluateNode policy root right >>= binary policy operator left

def evaluateExpression (expression : CompiledExpression) (root : Json)
    (policy : ExpressionPolicy) : Except String Value :=
  evaluateNode policy (ofJson root) expression.ast

/-! ### Agreement with the meaning -/

section

variable {lower : JsString → JsString} {config : SerializerConfig}

/-- The policy of the agent, of whole segments. -/
def portablePolicy (lower : JsString → JsString) (config : SerializerConfig) : Policy where
  redactsSegment segment := isRedactedKey lower (segmentKey segment) config
  redactsValue s := s ∈ config.redactValues

/-- The policy of an agent with this configuration. -/
def configuredPolicy (lower : JsString → JsString) (redactKeys redactValues : List JsString) :
    Policy :=
  portablePolicy lower (normalizeSerializerConfig lower redactKeys redactValues)

/-- The segment does not ask for the length of an array, unless it is redacted. -/
def LengthFree (policy : Policy) (current : Json) (segment : PathSegment) : Prop :=
  policy.redactsSegment segment = false → ∀ items, current = .arr items → segmentKey segment ≠ js "length"

theorem safeResult_agrees (v : Value) :
    Agree Eq (safeResult (expressionPolicy lower config) v)
      (allow (portablePolicy lower config) v) := by
  cases v with
  | number a =>
    show Agree Eq (if !a.portable then .error "unsafe-number" else .ok (number a))
      (if a.portable then .ok (number a) else .error ())
    cases a.portable with
    | true => exact .ok rfl
    | false => exact .error _ _
  | string s =>
    show Agree Eq
      (if (portablePolicy lower config).redactsValue s then .error "redacted" else .ok (string s))
      (if (portablePolicy lower config).redactsValue s then .error () else .ok (string s))
    cases (portablePolicy lower config).redactsValue s with
    | true => exact .error _ _
    | false => exact .ok rfl
  | null | bool b | array items | object members => exact .ok rfl

theorem ownProperty_ofJson {current : Json} {segment : PathSegment}
    (h : ∀ items, current = .arr items → segmentKey segment ≠ js "length") :
    ownProperty (ofJson current) (segmentKey segment) = (child current segment).map ofJson := by
  cases current with
  | arr items => exact if_neg (h items rfl)
  | obj members => rfl
  | null | bool b | num q | str s => rfl

theorem resolvePath_agrees {path : List PathSegment} {current : Json}
    (h : AlongPath (portablePolicy lower config) (LengthFree (portablePolicy lower config)) path current) :
    Agree Eq (resolvePath (expressionPolicy lower config) path (ofJson current))
      (resolve (portablePolicy lower config) path current) := by
  induction path generalizing current with
  | nil => exact safeResult_agrees _
  | cons segment path ih =>
    obtain ⟨hstep, hrest⟩ := h
    rw [resolvePath, resolve]
    by_cases hredacted : (portablePolicy lower config).redactsSegment segment = true
    · have hkey : (expressionPolicy lower config).isRedactedKey (segmentKey segment) = true :=
        hredacted
      rw [if_pos hredacted, if_pos hkey]
      exact .error _ _
    · have hkey : ¬ (expressionPolicy lower config).isRedactedKey (segmentKey segment) = true :=
        hredacted
      have hshown : (portablePolicy lower config).redactsSegment segment = false := Bool.eq_false_iff.mpr hredacted
      rw [if_neg hredacted, if_neg hkey, ownProperty_ofJson (hstep hshown)]
      rcases hchild : child current segment with - | next
      · exact .error _ _
      · exact ih (hrest hshown next hchild)

/-- An operand in the domain is a pair of numbers where both are. -/
theorem numberPair_number {a b : Double} (ha : (number a).InDomain) (hb : (number b).InDomain) :
    numberPair (number a) (number b) = some (a, b) := by
  have hboth : (isPortableNumber a && isPortableNumber b) = true :=
    Bool.and_eq_true_iff.mpr ⟨ha a rfl, hb b rfl⟩
  exact if_pos hboth

theorem isScalar_eq {v : Value} (h : v.InDomain) : isScalar v = v.isScalar := by
  cases v with
  | number a => exact h a rfl
  | null | bool b | string s | array items | object members => rfl

theorem finiteResult_agrees (value : Option Double) :
    Agree Eq (finiteResult (expressionPolicy lower config) value)
      (finite (portablePolicy lower config) value) := by
  cases value with
  | none => exact .error _ _
  | some c => exact safeResult_agrees (number c)

theorem numberPair_eq_none {a b : Value} (h : ∀ x y, a = number x → b = number y → False) :
    numberPair a b = none := by
  unfold numberPair
  split
  · rename_i x y
    exact (h x y rfl rfl).elim
  · rfl

theorem arithmetic_agrees {operator : BinaryOperator} (a b : Double)
    (hdec : operator.decidedBy = none) (hne : operator ≠ .eq) (hne' : operator ≠ .ne)
    (horder : order a b operator = none) :
    Agree Eq (arithmetic (expressionPolicy lower config) operator a b)
      (finite (portablePolicy lower config) (Portable.arithmetic a b operator)) := by
  cases operator with
  | add => exact finiteResult_agrees (a.add b)
  | subtract => exact finiteResult_agrees (a.sub b)
  | multiply => exact finiteResult_agrees (a.mul b)
  | divide =>
    show Agree Eq (if b.value = 0 then .error "division-by-zero" else _)
      (finite (portablePolicy lower config) (if b.value = 0 then none else a.div b))
    by_cases hzero : b.value = 0
    · rw [if_pos hzero, if_pos hzero]
      exact .error _ _
    · rw [if_neg hzero, if_neg hzero]
      exact finiteResult_agrees (a.div b)
  | modulo =>
    show Agree Eq (if b.value = 0 then .error "division-by-zero" else _)
      (finite (portablePolicy lower config) (if b.value = 0 then none else some (a.rem b)))
    by_cases hzero : b.value = 0
    · rw [if_pos hzero, if_pos hzero]
      exact .error _ _
    · rw [if_neg hzero, if_neg hzero]
      exact finiteResult_agrees (some (a.rem b))
  | eq => exact absurd rfl hne
  | ne => exact absurd rfl hne'
  | gt | gte | lt | lte => cases horder
  | and | or => cases hdec

theorem numbers_agree {operator : BinaryOperator} {a b : Double}
    (ha : (number a).InDomain) (hb : (number b).InDomain)
    (hdec : operator.decidedBy = none) (hne : operator ≠ .eq) (hne' : operator ≠ .ne) :
    Agree Eq (binary (expressionPolicy lower config) operator (number a) (number b))
      (onNumbers (portablePolicy lower config) operator a b) := by
  rw [binary.eq_def, if_neg (not_or.mpr ⟨hne, hne'⟩), numberPair_number ha hb, onNumbers]
  rcases horder : order a b operator with - | c
  · rw [if_neg (by rintro (rfl | rfl | rfl | rfl) <;> cases horder)]
    split
    · rename_i hstring _
      cases hstring
    · exact arithmetic_agrees a b hdec hne hne' horder
  · cases operator with
    | gt | gte | lt | lte =>
      cases horder
      exact .ok rfl
    | add | subtract | multiply | divide | modulo | eq | ne | and | or => cases horder

theorem binary_agrees {operator : BinaryOperator} {a b : Value} (ha : a.InDomain)
    (hb : b.InDomain) (hdec : operator.decidedBy = none) :
    Agree Eq (binary (expressionPolicy lower config) operator a b)
      (apply (portablePolicy lower config) operator a b) := by
  unfold apply
  split
  · rw [binary.eq_def, if_pos (.inl rfl), isScalar_eq ha, isScalar_eq hb]
    cases a.isScalar with
    | false => exact .error _ _
    | true =>
      cases b.isScalar with
      | false => exact .error _ _
      | true => exact .ok rfl
  · rw [binary.eq_def, if_pos (.inr rfl), isScalar_eq ha, isScalar_eq hb]
    cases a.isScalar with
    | false => exact .error _ _
    | true =>
      cases b.isScalar with
      | false => exact .error _ _
      | true => exact .ok rfl
  · rename_i hne hne'
    split
    · exact numbers_agree ha hb hdec hne hne'
    · rename_i s t
      by_cases hadd : operator = .add
      · subst hadd
        exact safeResult_agrees (string (s ++ t))
      · rw [if_neg hadd, binary.eq_def, if_neg (not_or.mpr ⟨hne, hne'⟩)]
        split
        · exact .error _ _
        · cases operator with
          | add => exact absurd rfl hadd
          | subtract | multiply | divide | modulo | eq | ne | gt | gte | lt | lte | and | or =>
            exact .error _ _
    · rename_i hnumbers hstrings
      rw [binary.eq_def, if_neg (not_or.mpr ⟨hne, hne'⟩), numberPair_eq_none hnumbers]
      split
      · exact .error _ _
      · split
        · exact (hstrings _ _ rfl rfl).elim
        · exact .error _ _

theorem boolean_agrees (v : Value) :
    Agree Eq
      (match v with
        | .bool c => .ok (.bool c)
        | _ => (.error "expected-boolean" : Except String Value))
      (boolean v) := by
  cases v with
  | bool c => exact .ok rfl
  | null | number a | string s | array items | object members => exact .error _ _

/-- **The Node agent evaluates what an expression means**, unless a path comes to
the length of an array. -/
theorem evaluateNode_agrees {root : Json} {node : ExpressionNode}
    (h : Throughout (portablePolicy lower config) root (LengthFree (portablePolicy lower config))
      (fun _ _ _ => True) node) :
    Agree Eq (evaluateNode (expressionPolicy lower config) (ofJson root) node)
      (value (portablePolicy lower config) root node) := by
  induction node with
  | literal scalar => exact safeResult_agrees _
  | reference path => exact resolvePath_agrees h
  | unary operator operand ih =>
    cases operator with
    | not =>
      refine (ih h).bind ?_
      rintro a _ - - rfl
      cases a with
      | bool b => exact .ok rfl
      | null | number a | string s | array items | object members => exact .error _ _
    | negate =>
      refine (ih h).bind ?_
      rintro a _ - ha rfl
      cases a with
      | number a =>
        have hportable : isPortableNumber a = true := value_inDomain ha a rfl
        show Agree Eq (if isPortableNumber a then _ else _) _
        rw [if_pos hportable]
        exact safeResult_agrees (number a.neg)
      | null | bool b | string s | array items | object members => exact .error _ _
  | binary operator left right ihl ihr =>
    rw [evaluateNode, value]
    refine (ihl h.1).bind ?_
    rintro a _ - ha rfl
    have hright := h.2 a ha
    rcases hdec : operator.decidedBy with - | decisive
    · rw [hdec] at hright
      rw [if_neg (by rintro (rfl | rfl) <;> cases hdec)]
      refine (ihr hright.1).bind ?_
      rintro b _ - hb rfl
      exact binary_agrees (value_inDomain ha) (value_inDomain hb) hdec
    · rw [hdec] at hright
      cases operator with
      | and =>
        cases hdec
        cases a with
        | bool b =>
          cases b with
          | false => exact .ok rfl
          | true =>
            refine (ihr (hright rfl)).bind ?_
            rintro c _ - - rfl
            exact boolean_agrees c
        | null | number a | string s | array items | object members => exact .error _ _
      | or =>
        cases hdec
        cases a with
        | bool b =>
          cases b with
          | true => exact .ok rfl
          | false =>
            refine (ihr (hright rfl)).bind ?_
            rintro c _ - - rfl
            exact boolean_agrees c
        | null | number a | string s | array items | object members => exact .error _ _
      | add | subtract | multiply | divide | modulo | eq | ne | gt | gte | lt | lte => cases hdec

end

end NodeAgent
