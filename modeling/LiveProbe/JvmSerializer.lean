/-
LiveProbe/JvmSerializer.lean

The serializer of the JVM bridge: `SafeSerializer.java`.

As in `NodeSerializer`, a captured value is seen through its shape.  An object
read over JDI is a summary, its class and its fields; one that was not read is a
reference.  The keys of the nodes of an object are those of a `LinkedHashMap`.
-/
import LiveProbe.CodePoints
import LiveProbe.Events
import LiveProbe.JsMap
import LiveProbe.JvmExpression
import LiveProbe.NodeSerializer

open JsString Binary64

namespace JvmBridge

/-! ### Configuration -/

/-- `Config` with the bounds of a traversal. -/
structure SerializerLimits extends Config where
  maxDepth : ℕ
  maxArray : ℕ
  maxProps : ℕ
  maxString : ℕ

/-- The largest `int`. -/
def maxInt : ℕ := 2147483647

/-- `Config.integer`: `intValueExact`, then `nonNegative` -/
def configInteger (value : Option ℤ) (key : String) (fallback : ℕ) : Except String ℕ :=
  match value with
  | none => .ok fallback
  | some value =>
    if value < -(maxInt + 1 : ℤ) ∨ (maxInt : ℤ) < value then
      .error (key ++ " must be a non-negative integer")
    else if value < 0 then .error (key ++ " must be non-negative")
    else .ok value.toNat

/-- `Config.fromJson`, as far as a traversal reads it -/
def SerializerLimits.fromJson (lower : JsString → JsString)
    (config : NodeAgent.SerializerConfigInput) : Except String SerializerLimits := do
  let maxDepth ← configInteger config.maxDepth "maxDepth" 3
  let maxArray ← configInteger config.maxArray "maxArray" 3
  let maxProps ← configInteger config.maxProps "maxProps" 50
  let maxString ← configInteger config.maxString "maxString" 1024
  return { Config.new lower config.redactKeys config.redactValues with
    maxDepth, maxArray, maxProps, maxString }

/-! ### Values -/

/-- What `walk` finds a value to be.  A key that is no `String` is nothing. -/
inductive Shape (ν : Type)
  | redacted
  | null
  | function
  | string (s : JsString)
  | character (c : UInt16)
  | boolean (b : Bool)
  | number (n : JvmNumber)
  | notFinite
  | reference (typeName : JsString)
  | summary (typeName : JsString) (fields : List (JsString × ν))
  | map (entries : List (Option JsString × ν))
  | iterable (items : List ν)
  | array (items : List ν)
  | unsupported

/-- The value of a number, as JSON writes it. -/
def JvmNumber.value : JvmNumber → ℚ
  | integer z => z
  | decimal q => q
  | double a => a.value

section

variable {ν : Type} [DecidableEq ν] (lower : JsString → JsString) (view : ν → Shape ν)
  (config : SerializerLimits)

/-- `walk` of a text, with as many levels as are left. -/
def walkText (levels : ℕ) (key : Option JsString) (text : JsString) : SerializedNode :=
  if key.any (isRedactedKey lower config.toConfig) then .redacted
  else if text ∈ config.redactValues then .redacted
  else if levels = 0 then .truncated .depth
  else if config.maxString < (codePoints text).length then .truncated .string
  else .str text

/-- `walk`, with as many levels as are left: `maxDepth + 1 - depth`. -/
def walk : ℕ → List ν → Option JsString → ν → SerializedNode
  | 0, _, key, raw =>
    if key.any (isRedactedKey lower config.toConfig) then .redacted
    else
      match view raw with
      | .redacted => .redacted
      | .string text => walkText lower config 0 key text
      | _ => .truncated .depth
  | levels + 1, active, key, raw =>
    if key.any (isRedactedKey lower config.toConfig) then .redacted
    else
      match view raw with
      | .redacted => .redacted
      | .null => .null
      | .function => .fn
      | .string text => walkText lower config (levels + 1) key text
      | .character c => .str [c]
      | .boolean b => .bool b
      | .number n => .num n.value
      | .notFinite => .truncated .unsupported
      | .reference typeName => .str (typeName ++ js "\x7b...\x7d")
      | .summary typeName fields =>
        if raw ∈ active then .truncated .circular
        else
          -- the class takes the place of a property
          let type :=
            if 0 < config.maxProps then
              [(js "$type", walkText lower config levels (some (js "$type")) typeName)]
            else []
          let children := (fields.take (config.maxProps - 1)).map fun field =>
            (field.1,
              if isRedactedKey lower config.toConfig field.1 then .redacted
              else walk levels (raw :: active) (some field.1) field.2)
          .obj (JsMap.ofEntries (type ++ children)).entries (config.maxProps < fields.length + 1)
      | .map entries =>
        if raw ∈ active then .truncated .circular
        else
          let properties := entries.filterMap fun entry => entry.1.map fun key => (key, entry.2)
          .obj
            ((properties.take config.maxProps).map fun property =>
              (property.1,
                if isRedactedKey lower config.toConfig property.1 then .redacted
                else walk levels (raw :: active) (some property.1) property.2))
            (config.maxProps < properties.length)
      | .iterable items | .array items =>
        if raw ∈ active then .truncated .circular
        else
          .arr ((items.take config.maxArray).map (walk levels (raw :: active) none))
            (config.maxArray < items.length)
      | .unsupported => .truncated .unsupported

/-- `SafeSerializer.serialize` under the configuration that `fromJson` reads. -/
def serialize (input : NodeAgent.SerializerConfigInput) (raw : ν) :
    Except String SerializedNode := do
  let config ← SerializerLimits.fromJson lower input
  return walk lower view config (config.maxDepth + 1) [] none raw

end

end JvmBridge
