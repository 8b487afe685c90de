/-
LiveProbe/PythonSerializer.lean

The serializer of the Python agent: `serialize` of `serializer.py` and the
rendering of its nodes.

A captured value is seen through a `Heap`: what kind of value an object is and
what it holds, and whether two references are one object.  The traversal is
bounded by the depth of the configuration, so it ends on a cyclic graph too.
-/
import LiveProbe.Events
import LiveProbe.PythonExpression

open JsString Binary64

namespace PythonAgent

/-! ### Values -/

/-- What `serialize` finds a value to be.  A key that is no `str` is nothing. -/
inductive Shape (ν : Type)
  | none
  | bool (b : Bool)
  | number (n : PyNumber)
  | str (s : PyString)
  | function
  | sequence (items : List ν)
  | record (members : List (Option PyString × ν))
  | unsupported

/-- Captured values: what they are, and `id(v) == id(w)`. -/
structure Heap (ν : Type) where
  view : ν → Shape ν
  same : ν → ν → Bool

/-- `SerializerConfig` with the bounds of a traversal. -/
structure SerializerLimits extends SerializerConfig where
  maxDepth : ℕ := 3
  maxArray : ℕ := 3
  maxProps : ℕ := 50
  maxString : ℕ := 1024

/-- `_non_negative_int` of an entry of the configuration, or its default. -/
def nonNegativeInt (value : Option ℤ) (fallback : ℕ) (name : String) : Except String ℕ :=
  match value with
  | none => .ok fallback
  | some value =>
    if value < 0 then .error (name ++ " must be a non-negative integer") else .ok value.toNat

/-- `SerializerConfig.from_mapping`, with the bounds -/
def SerializerLimits.fromMapping (unicode : Unicode)
    (maxDepth maxArray maxProps maxString : Option ℤ) (redactKeys redactValues : List PyString) :
    Except String SerializerLimits := do
  let config ← SerializerConfig.fromMapping unicode redactKeys redactValues
  let maxDepth ← nonNegativeInt maxDepth 3 "maxDepth"
  let maxArray ← nonNegativeInt maxArray 3 "maxArray"
  let maxProps ← nonNegativeInt maxProps 50 "maxProps"
  let maxString ← nonNegativeInt maxString 1024 "maxString"
  return { config with maxDepth, maxArray, maxProps, maxString }

/-- `SanitizedNode`; the flag of a container is its marker `m`. -/
inductive Sanitized
  | str (v : PyString)
  | num (v : PyNumber)
  | bool (v : Bool)
  | null
  | fn
  | redacted
  | truncated (v : TruncationKind)
  | arr (c : List Sanitized) (m : Bool)
  | obj (c : List (PyString × Sanitized)) (m : Bool)

/-! ### Serialization -/

section

variable {ν : Type} (unicode : Unicode) (heap : Heap ν) (config : SerializerLimits)

/-- `visit`, with as many levels as are left: `max_depth + 1 - depth`. -/
def visit : ℕ → List ν → ν → Sanitized
  | 0, _, value =>
    match heap.view value with
    | .str s => if s ∈ config.redactValues then .redacted else .truncated .depth
    | _ => .truncated .depth
  | levels + 1, ancestors, value =>
    match heap.view value with
    | .none => .null
    | .bool b => .bool b
    | .number n => .num n
    | .str s =>
      if s ∈ config.redactValues then .redacted
      else if config.maxString < s.length then .truncated .string
      else .str s
    | .function => .fn
    | .unsupported => .truncated .unsupported
    | .sequence items =>
      if ancestors.any (heap.same value) then .truncated .circular
      else
        .arr ((items.take config.maxArray).map (visit levels (value :: ancestors)))
          (config.maxArray < items.length)
    | .record members =>
      if ancestors.any (heap.same value) then .truncated .circular
      else
        let retained := members.take config.maxProps
        -- a key that is no `str` is left out, and marked as omitted
        .obj
          (retained.filterMap fun member =>
            member.1.map fun key =>
              (key, if redactsKey unicode config.toSerializerConfig key then .redacted
                else visit levels (value :: ancestors) member.2))
          (config.maxProps < members.length || retained.any fun member => member.1.isNone)

/-- `serialize` -/
def serialize (raw : ν) (rootKey : Option PyString) : Sanitized :=
  if rootKey.any (redactsKey unicode config.toSerializerConfig) then .redacted
  else visit unicode heap config (config.maxDepth + 1) [] raw

end

/-! ### The node in a report -/

/-- A `str` as JSON carries it. -/
def units (s : PyString) : JsString := s.flatMap pointUnits

mutual

/-- What `json.dumps` makes of a node is read back as. -/
def Sanitized.wire : Sanitized → SerializedNode
  | .str v => .str (units v)
  | .num v => .num v.value
  | .bool v => .bool v
  | .null => .null
  | .fn => .fn
  | .redacted => .redacted
  | .truncated v => .truncated v
  | .arr c m => .arr (wireNodes c) m
  | .obj c m => .obj (wireMembers c) m

def wireNodes : List Sanitized → List SerializedNode
  | [] => []
  | node :: rest => node.wire :: wireNodes rest

def wireMembers : List (PyString × Sanitized) → List (JsString × SerializedNode)
  | [] => []
  | (key, node) :: rest => (units key, node.wire) :: wireMembers rest

end

theorem wireNodes_eq_map (nodes : List Sanitized) : wireNodes nodes = nodes.map Sanitized.wire := by
  induction nodes with
  | nil => rfl
  | cons node rest ih => rw [wireNodes, ih, List.map_cons]

theorem wireMembers_eq_map (members : List (PyString × Sanitized)) :
    wireMembers members = members.map fun m => (units m.1, m.2.wire) := by
  induction members with
  | nil => rfl
  | cons member rest ih => rw [wireMembers, ih, List.map_cons]

/-! ### Rendering -/

/-- `"\uXXXX"` -/
def unicodeEscape (c : ℕ) : PyString :=
  let digits := (Nat.toDigits 16 c).map Char.toNat
  [0x5C, 0x75] ++ List.replicate (4 - digits.length) 0x30 ++ digits

/-- A character in `json.dumps`, which leaves printable ASCII alone. -/
def escapeChar (c : ℕ) : PyString :=
  if c = 0x22 then [0x5C, 0x22]
  else if c = 0x5C then [0x5C, 0x5C]
  else if c = 0x0A then [0x5C, 0x6E]
  else if c = 0x0D then [0x5C, 0x72]
  else if c = 0x09 then [0x5C, 0x74]
  else if c = 0x0C then [0x5C, 0x66]
  else if c = 0x08 then [0x5C, 0x62]
  else if 0x20 ≤ c ∧ c ≤ 0x7E then [c]
  else (pointUnits c).flatMap fun unit => unicodeEscape unit.toNat

/-- `json.dumps` of a `str` -/
def dumpsText (s : PyString) : PyString := 0x22 :: s.flatMap escapeChar ++ [0x22]

/-- `json.dumps(items, separators=(",", ":"))` -/
def dumpsItems (items : List PyString) : PyString :=
  0x5B :: [0x2C].intercalate (items.map dumpsText) ++ [0x5D]

/-- `json.dumps(members, separators=(",", ":"), sort_keys=True)` -/
def dumpsMembers (members : List (PyString × PyString)) : PyString :=
  let sorted := members.mergeSort fun a b => decide (a.1 ≤ b.1)
  0x7B :: [0x2C].intercalate (sorted.map fun m => dumpsText m.1 ++ 0x3A :: dumpsText m.2) ++ [0x7D]

/-- A text of the source. -/
def py (s : String) : PyString := s.toList.map Char.toNat

/-- `str` of an `int` -/
def intText (z : ℤ) : PyString := py (toString z)

def truncationText : TruncationKind → PyString
  | .depth => py "depth"
  | .array => py "array"
  | .props => py "props"
  | .string => py "string"
  | .circular => py "circular"
  | .unsupported => py "unsupported"

def markerText (kind : TruncationKind) : PyString := py "[truncated:" ++ truncationText kind ++ py "]"

section

variable (floatText : Double → PyString)

mutual

/-- `render_node`, over `str` of a `float`. -/
def renderNode : Sanitized → PyString
  | .str v => v
  | .num (.int z) => intText z
  | .num (.float a) => floatText a
  | .bool v => if v then py "true" else py "false"
  | .null => py "null"
  | .redacted => py "[REDACTED]"
  | .fn => py "[function]"
  | .truncated v => markerText v
  | .arr c m => dumpsItems (renderNodes c ++ if m then [markerText .array] else [])
  | .obj c m =>
    let rendered := renderMembers c
    dumpsMembers
      (if m then rendered.filter (fun e => e.1 ≠ py "...") ++ [(py "...", markerText .props)]
        else rendered)

def renderNodes : List Sanitized → List PyString
  | [] => []
  | node :: rest => renderNode node :: renderNodes rest

def renderMembers : List (PyString × Sanitized) → List (PyString × PyString)
  | [] => []
  | (key, node) :: rest => (key, renderNode node) :: renderMembers rest

end

end

end PythonAgent
