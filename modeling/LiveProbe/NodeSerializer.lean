/-
LiveProbe/NodeSerializer.lean

The serializer of the Node agent: `serializer.ts`.

A captured value is seen through its shape: what kind of value it is, and the
own properties of a container with what `getOwnPropertyDescriptor` gives for
each.  An accessor is never called; it counts as the text `[getter]`.  The
traversal is bounded by the depth of the configuration, as in
`PythonSerializer`.
-/
import LiveProbe.CodePoints
import LiveProbe.Events
import LiveProbe.SafeExpression

open JsString

namespace NodeAgent

/-! ### Configuration -/

/-- `SerializerConfigInput`, as far as a traversal reads it; nothing is `undefined`. -/
structure SerializerConfigInput where
  maxDepth : Option ℤ
  maxArray : Option ℤ
  maxProps : Option ℤ
  maxString : Option ℤ
  redactKeys : List JsString
  redactValues : List JsString

/-- `SerializerConfig` with the bounds of a traversal. -/
structure SerializerLimits extends SerializerConfig where
  maxDepth : ℕ
  maxArray : ℕ
  maxProps : ℕ
  maxString : ℕ

def normalizedLimit (value : Option ℤ) (fallback : ℕ) (name : String) : Except String ℕ :=
  match value with
  | none => .ok fallback
  | some value =>
    if Schema.maxSafeInteger < value.natAbs ∨ value < 0 then
      .error (name ++ " must be a non-negative safe integer")
    else .ok value.toNat

/-- `normalizeSerializerConfig`, with the bounds -/
def SerializerLimits.normalize (lower : JsString → JsString) (input : SerializerConfigInput) :
    Except String SerializerLimits := do
  let maxDepth ← normalizedLimit input.maxDepth 3 "maxDepth"
  let maxArray ← normalizedLimit input.maxArray 3 "maxArray"
  let maxProps ← normalizedLimit input.maxProps 50 "maxProps"
  let maxString ← normalizedLimit input.maxString 1024 "maxString"
  return { normalizeSerializerConfig lower input.redactKeys input.redactValues with
    maxDepth, maxArray, maxProps, maxString }

/-! ### Values -/

/-- What a property holds: a value, or what is taken for an accessor or a missing property. -/
inductive Raw (ν : Type)
  | value (v : ν)
  | getter
  | undefined
  deriving DecidableEq

/-- What `serializeValue` finds a value to be. -/
inductive Shape (ν : Type)
  | captureTruncated
  | null
  | string (s : JsString)
  | number (q : ℚ)
  | notFinite
  | boolean (b : Bool)
  | function
  | array (items : List (Raw ν))
  | object (members : List (JsString × Raw ν))
  | unsupported

section

variable {ν : Type} [DecidableEq ν] (lower : JsString → JsString) (view : ν → Shape ν)
  (config : SerializerLimits)

def Raw.shape : Raw ν → Shape ν
  | value v => view v
  | getter => .string (js "[getter]")
  | undefined => .unsupported

/-- `serializeValue`, with as many levels as are left: `maxDepth + 1 - depth`. -/
def serializeValue : ℕ → List (Raw ν) → Raw ν → SerializedNode
  | 0, _, raw =>
    match raw.shape view with
    | .captureTruncated => .truncated .props
    | .string s => if s ∈ config.redactValues then .redacted else .truncated .depth
    | _ => .truncated .depth
  | levels + 1, activeAncestors, raw =>
    match raw.shape view with
    | .captureTruncated => .truncated .props
    | .null => .null
    | .string s =>
      if s ∈ config.redactValues then .redacted
      else if config.maxString < (codePoints s).length then .truncated .string
      else .str s
    | .number q => .num q
    | .notFinite => .truncated .unsupported
    | .boolean b => .bool b
    | .function => .fn
    | .unsupported => .truncated .unsupported
    | .array items =>
      if raw ∈ activeAncestors then .truncated .circular
      else
        .arr ((items.take config.maxArray).map (serializeValue levels (raw :: activeAncestors)))
          (config.maxArray < items.length)
    | .object members =>
      if raw ∈ activeAncestors then .truncated .circular
      else
        .obj
          ((members.take config.maxProps).map fun member =>
            (member.1,
              if isRedactedKey lower member.1 config.toSerializerConfig then .redacted
              else serializeValue levels (raw :: activeAncestors) member.2))
          (config.maxProps < members.length)

def serialize (input : SerializerConfigInput) (raw : ν) : Except String SerializedNode := do
  let config ← SerializerLimits.normalize lower input
  return serializeValue lower view config (config.maxDepth + 1) [] (.value raw)

end

end NodeAgent
