/-
LiveProbe/Portable.lean

What a safe expression means: section 3.2 of `protocol.md`, which the agents'
evaluators are to implement.  Values are JSON values whose numbers are doubles;
types are strict, nothing is coerced, and `and` and `or` evaluate their right
operand only where the left one does not decide.

`value` is the abstract evaluator.  An evaluator of an agent agrees with it
where the agent does with every step of a path and every operation what is done
here; `Throughout` says so of the steps and operations an evaluation comes to,
and of no others.
-/
import LiveProbe.Double
import LiveProbe.Expression
import LiveProbe.Json
import LiveProbe.Outcome

open JsString Binary64 Outcome

/-- The value of the left operand that leaves the right one unevaluated. -/
def BinaryOperator.decidedBy : BinaryOperator → Option Bool
  | .and => some false
  | .or => some true
  | _ => none

namespace Portable

/-! ### Values -/

/-- A value of an expression. -/
inductive Value
  | null
  | bool (b : Bool)
  | number (a : Double)
  | string (s : JsString)
  | array (items : List Json)
  | object (members : List (JsString × Json))

namespace Value

def ofScalar : JsonScalar → Value
  | .null => null
  | .bool b => bool b
  | .num q => number (Double.ofRat false q)
  | .str s => string s

def ofJson : Json → Value
  | .null => null
  | .bool b => bool b
  | .num q => number (Double.ofRat false q)
  | .str s => string s
  | .arr items => array items
  | .obj members => object members

def isScalar : Value → Bool
  | array _ | object _ => false
  | _ => true

/-- Equality of scalars; values of two types are not equal. -/
def same : Value → Value → Bool
  | null, null => true
  | bool a, bool b => a = b
  | number a, number b => a.value = b.value
  | string s, string t => s = t
  | _, _ => false

/-- A number is in the portable domain. -/
def InDomain (v : Value) : Prop := ∀ a, v = number a → a.portable

end Value

open Value

/-! ### Operations -/

/-- What may be shown: the redaction policy of an agent. -/
structure Policy where
  redactsSegment : PathSegment → Bool
  redactsValue : JsString → Bool

/-- A value in the domain that may be shown. -/
def allow (policy : Policy) : Value → Except Unit Value
  | .number a => if a.portable then .ok (.number a) else .error ()
  | .string s => if policy.redactsValue s then .error () else .ok (.string s)
  | v => .ok v

/-- The result of an ordering operator, and no result of another. -/
def order (a b : Double) : BinaryOperator → Option Bool
  | .gt => some (b.value < a.value)
  | .gte => some (b.value ≤ a.value)
  | .lt => some (a.value < b.value)
  | .lte => some (a.value ≤ b.value)
  | _ => none

/-- Finite IEEE arithmetic. -/
def arithmetic (a b : Double) : BinaryOperator → Option Double
  | .add => a.add b
  | .subtract => a.sub b
  | .multiply => a.mul b
  | .divide => if b.value = 0 then none else a.div b
  | .modulo => if b.value = 0 then none else some (a.rem b)
  | _ => none

/-- The result of arithmetic, unless there is none. -/
def finite (policy : Policy) : Option Double → Except Unit Value
  | some c => allow policy (.number c)
  | none => .error ()

/-- An operator on two numbers. -/
def onNumbers (policy : Policy) (operator : BinaryOperator) (a b : Double) :
    Except Unit Value :=
  match order a b operator with
  | some c => .ok (.bool c)
  | none => finite policy (arithmetic a b operator)

/-- An operator that evaluates both operands. -/
def apply (policy : Policy) (operator : BinaryOperator) (a b : Value) : Except Unit Value :=
  match operator with
  | .eq => if a.isScalar && b.isScalar then .ok (.bool (same a b)) else .error ()
  | .ne => if a.isScalar && b.isScalar then .ok (.bool !(same a b)) else .error ()
  | operator =>
    match a, b with
    | .number a, .number b => onNumbers policy operator a b
    | .string s, .string t =>
      if operator = .add then allow policy (.string (s ++ t)) else .error ()
    | _, _ => .error ()

/-! ### Paths -/

/-- The name of a segment among the members of an object. -/
def segmentKey : PathSegment → JsString
  | .name s => s
  | .index n => decimal n

/-- The element of an array under its numeral. -/
def element (items : List Json) (key : JsString) : Option Json :=
  (readDecimal key).bind fun i => if decimal i = key then items[i]? else none

/-- What a segment leads to. -/
def child (current : Json) (segment : PathSegment) : Option Json :=
  match current with
  | .obj members => (Json.obj members).get? (segmentKey segment)
  | .arr items => element items (segmentKey segment)
  | _ => none

/-- Follow a path. -/
def resolve (policy : Policy) : List PathSegment → Json → Except Unit Value
  | [], current => allow policy (ofJson current)
  | segment :: path, current =>
    if policy.redactsSegment segment then .error ()
    else
      match child current segment with
      | some next => resolve policy path next
      | none => .error ()

/-! ### Expressions -/

def negated : Value → Except Unit Value
  | .bool b => .ok (.bool !b)
  | _ => .error ()

def negative (policy : Policy) : Value → Except Unit Value
  | .number a => allow policy (.number a.neg)
  | _ => .error ()

def boolean : Value → Except Unit Value
  | .bool b => .ok (.bool b)
  | _ => .error ()

/-- **The meaning of an expression.** -/
def value (policy : Policy) (root : Json) : ExpressionNode → Except Unit Value
  | .literal scalar => allow policy (ofScalar scalar)
  | .reference path => resolve policy path root
  | .unary .not operand => value policy root operand >>= negated
  | .unary .negate operand => value policy root operand >>= negative policy
  | .binary operator left right =>
    value policy root left >>= fun a =>
      match operator.decidedBy with
      | some decisive =>
        match a with
        | .bool b =>
          if b = decisive then .ok (.bool b)
          else value policy root right >>= boolean
        | _ => .error ()
      | none => value policy root right >>= apply policy operator a

/-! ### What an evaluation comes to -/

/-- `Step` holds wherever a path comes to a segment. -/
def AlongPath (policy : Policy) (Step : Json → PathSegment → Prop) :
    List PathSegment → Json → Prop
  | [], _ => True
  | segment :: path, current =>
    Step current segment ∧
      (policy.redactsSegment segment = false →
        ∀ next, child current segment = some next → AlongPath policy Step path next)

/-- `Step` holds at every segment an evaluation comes to, and `Operation` of
every operator on two evaluated operands. -/
def Throughout (policy : Policy) (root : Json) (Step : Json → PathSegment → Prop)
    (Operation : BinaryOperator → Value → Value → Prop) : ExpressionNode → Prop
  | .literal _ => True
  | .reference path => AlongPath policy Step path root
  | .unary _ operand => Throughout policy root Step Operation operand
  | .binary operator left right =>
    Throughout policy root Step Operation left ∧
      ∀ a, value policy root left = .ok a →
        match operator.decidedBy with
        | some decisive =>
          a = .bool !decisive → Throughout policy root Step Operation right
        | none =>
          Throughout policy root Step Operation right ∧
            ∀ b, value policy root right = .ok b → Operation operator a b

/-! ### Elements -/

/-- An item of an array under the numeral of its index. -/
theorem element_decimal (items : List Json) (i : ℕ) : element items (decimal i) = items[i]? := by
  rw [element, readDecimal_decimal]
  exact if_pos rfl

theorem element_eq_none {items : List Json} {key : JsString}
    (h : ∀ i < items.length, key ≠ decimal i) : element items key = none := by
  unfold element
  rcases readDecimal key with - | i
  · rfl
  · show (if decimal i = key then items[i]? else none) = none
    split
    · rename_i hkey
      refine List.getElem?_eq_none (not_lt.mp fun hlt => ?_)
      exact h i hlt hkey.symm
    · rfl

/-! ### Values are in the domain -/

section

variable {policy : Policy} {root : Json}

/-- What is admitted is unchanged and in the domain. -/
theorem allow_eq_ok {v w : Value} (h : allow policy v = .ok w) : v = w ∧ w.InDomain := by
  cases v with
  | number a =>
    by_cases hportable : a.portable = true
    · rw [allow, if_pos hportable] at h
      cases h
      refine ⟨rfl, ?_⟩
      rintro b ⟨⟩
      exact hportable
    · rw [allow, if_neg hportable] at h
      cases h
  | string s =>
    by_cases hredacted : policy.redactsValue s = true
    · rw [allow, if_pos hredacted] at h
      cases h
    · rw [allow, if_neg hredacted] at h
      cases h
      exact ⟨rfl, nofun⟩
  | null | bool b | array items | object members =>
    cases h
    exact ⟨rfl, nofun⟩

theorem resolve_inDomain {path : List PathSegment} {current : Json} {v : Value}
    (h : resolve policy path current = .ok v) : v.InDomain := by
  induction path generalizing current with
  | nil => exact (allow_eq_ok h).2
  | cons segment path ih =>
    rw [resolve] at h
    split at h
    · cases h
    · split at h
      · exact ih h
      · cases h

theorem boolean_eq_ok {v w : Value} (h : boolean v = .ok w) : ∃ b, v = .bool b ∧ w = .bool b := by
  cases v with
  | bool b => exact ⟨b, rfl, (Except.ok.inj h).symm⟩
  | null | number a | string s | array items | object members => cases h

theorem finite_inDomain {result : Option Double} {v : Value}
    (h : finite policy result = .ok v) : v.InDomain := by
  cases result with
  | none => cases h
  | some c =>
    have hallow : allow policy (.number c) = .ok v := h
    exact (allow_eq_ok hallow).2

/-- Only results in the domain count. -/
theorem finite_filter (result : Option Double) :
    finite policy (result.filter Double.portable) = finite policy result := by
  cases result with
  | none => rfl
  | some c =>
    rw [Option.filter_some]
    show finite policy (if c.portable then some c else none)
      = if c.portable then .ok (.number c) else .error ()
    cases h : c.portable with
    | true =>
      show (if c.portable then _ else _) = _
      rw [h]
    | false => rfl

theorem onNumbers_inDomain {operator : BinaryOperator} {a b : Double} {v : Value}
    (h : onNumbers policy operator a b = .ok v) : v.InDomain := by
  unfold onNumbers at h
  split at h
  · cases h
    nofun
  · exact finite_inDomain h

theorem apply_inDomain {operator : BinaryOperator} {a b v : Value}
    (h : apply policy operator a b = .ok v) : v.InDomain := by
  unfold apply at h
  split at h
  · split at h
    · cases h
      nofun
    · cases h
  · split at h
    · cases h
      nofun
    · cases h
  · split at h
    · exact onNumbers_inDomain h
    · split at h
      · exact (allow_eq_ok h).2
      · cases h
    · cases h

/-- **Every number an expression has for a value is in the portable domain.** -/
theorem value_inDomain {node : ExpressionNode} {v : Value}
    (h : value policy root node = .ok v) : v.InDomain := by
  cases node with
  | literal scalar => exact (allow_eq_ok h).2
  | reference path => exact resolve_inDomain h
  | unary operator operand =>
    cases operator with
    | not =>
      rw [value] at h
      obtain ⟨w, -, hw⟩ := bind_eq_ok.mp h
      cases w with
      | bool b =>
        cases hw
        nofun
      | null | number a | string s | array items | object members => cases hw
    | negate =>
      rw [value] at h
      obtain ⟨w, -, hw⟩ := bind_eq_ok.mp h
      cases w with
      | number a =>
        have hallow : allow policy (.number a.neg) = .ok v := hw
        exact (allow_eq_ok hallow).2
      | null | bool b | string s | array items | object members => cases hw
  | binary operator left right =>
    rw [value] at h
    obtain ⟨a, -, ha⟩ := bind_eq_ok.mp h
    split at ha
    · split at ha
      · split at ha
        · cases ha
          nofun
        · obtain ⟨w, -, hw⟩ := bind_eq_ok.mp ha
          obtain ⟨b, -, rfl⟩ := boolean_eq_ok hw
          nofun
      · cases ha
    · obtain ⟨b, -, hb⟩ := bind_eq_ok.mp ha
      exact apply_inDomain hb

/-! ### Weakening -/

theorem AlongPath.mono {Step Step' : Json → PathSegment → Prop}
    (hstep : ∀ current segment, Step current segment → Step' current segment)
    {path : List PathSegment} {current : Json} (h : AlongPath policy Step path current) :
    AlongPath policy Step' path current := by
  induction path generalizing current with
  | nil => trivial
  | cons segment path ih =>
    exact ⟨hstep _ _ h.1, fun hred next hnext => ih (h.2 hred next hnext)⟩

theorem Throughout.mono {Step Step' : Json → PathSegment → Prop}
    {Operation Operation' : BinaryOperator → Value → Value → Prop}
    (hstep : ∀ current segment, Step current segment → Step' current segment)
    (hoperation : ∀ operator a b, Operation operator a b → Operation' operator a b)
    {node : ExpressionNode} (h : Throughout policy root Step Operation node) :
    Throughout policy root Step' Operation' node := by
  induction node with
  | literal scalar => trivial
  | reference path => exact AlongPath.mono hstep h
  | unary operator operand ih => exact ih h
  | binary operator left right ihl ihr =>
    refine ⟨ihl h.1, fun a ha => ?_⟩
    have hright := h.2 a ha
    rcases hdec : operator.decidedBy with - | decisive
    · rw [hdec] at hright
      exact ⟨ihr hright.1, fun b hb => hoperation _ _ _ (hright.2 b hb)⟩
    · rw [hdec] at hright
      exact fun hb => ihr (hright hb)

end

end Portable
