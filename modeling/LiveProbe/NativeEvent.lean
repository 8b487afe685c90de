/-
LiveProbe/NativeEvent.lean

The event that the native agent makes of a record: `decode_event` of
`runtime.rs` from the decoded slots on, with `serializer.rs` and `render_log`.

The decoded values are kept by path and sanitized before anything is made of
them.  A value whose path matches a redaction pattern is replaced without being
looked at, so the event is a function of the other values alone.

`Codec` stands for what the agent takes from its libraries: the text of a
double, and the sizes of encoded values.
-/
import LiveProbe.Decoder
import Mathlib.Data.List.Infix

namespace NativeAgent

/-! ### Ordered maps -/

/-- `BTreeMap::insert`, on the pairs in the order of their keys. -/
def mapInsert {α : Type} (key : String) (value : α) : List (String × α) → List (String × α)
  | [] => [(key, value)]
  | (k, v) :: rest =>
    if key < k then (key, value) :: (k, v) :: rest
    else if key = k then (key, value) :: rest
    else (k, v) :: mapInsert key value rest

/-! ### Nodes and events -/

/-- `UnavailableValue` -/
structure UnavailableEvidence where
  reasonCode : String
  detail : Option String
  siteId : Option String
  buildId : Option String
  deriving DecidableEq, Repr

/-- `SanitizedNode`, with the forms that no slot decodes to. -/
inductive OutboundNode
  | str (v : String)
  | num (v : ℤ)
  | bool (v : Bool)
  | null
  | obj (c : List (String × OutboundNode))
  | redacted
  | truncated (v : String)
  | unavailable (v : UnavailableEvidence)

/-- A decoded value among the other forms; its detail is never sent. -/
def SanitizedNode.outbound : SanitizedNode → OutboundNode
  | .num v => .num v
  | .bool v => .bool v
  | .str v => .str v
  | .unavailable reasonCode siteId buildId => .unavailable ⟨reasonCode, none, siteId, buildId⟩

/-- `NativeEvent`, as far as a record leads to one. -/
inductive NativeEvent
  | snapshot (probeId : String) (probeVersion : ℕ) (ts : String) (captured : OutboundNode)
      (watches : List (String × OutboundNode))
  | log (probeId : String) (probeVersion : ℕ) (ts message level : String)
  | metric (probeId : String) (probeVersion : ℕ) (ts : String) (count : ℕ)
      (sum min max last : ℤ)

/-- What the agent takes from its libraries. -/
structure Codec where
  /-- `f64::to_string` -/
  numberText : ℤ → String
  /-- the length of `serde_json::to_vec` -/
  membersSize : List (String × OutboundNode) → ℕ
  eventSize : NativeEvent → ℕ

/-! ### Redaction -/

/-- `SerializerConfig`; the values redacted are a set. -/
structure SerializerConfig where
  maxDepth : ℕ := 3
  maxProperties : ℕ := 50
  maxString : ℕ := 1024
  maxBytes : ℕ := 64 * 1024
  redactKeys : List String :=
    ["password", "secret", "token", "authorization", "cookie", "key", "signature", "ssn",
      "creditcard"]
  redactValues : List String := []
  deriving DecidableEq, Repr

/-- `to_ascii_lowercase` -/
def asciiLowercase (s : String) : List Char := s.toList.map Char.toLower

def keyIsRedacted (key : String) (config : SerializerConfig) : Bool :=
  let lower := asciiLowercase key
  config.redactKeys.any fun pattern => decide (asciiLowercase pattern <:+: lower)

/-- `String::truncate`, which panics within a character. -/
def truncateBytes : List Char → ℕ → Option (List Char)
  | _, 0 => some []
  | [], _ + 1 => some []
  | c :: t, n + 1 =>
    if c.utf8Size ≤ n + 1 then (truncateBytes t (n + 1 - c.utf8Size)).map (c :: ·) else none

/-- The text of a node that is compared with the redacted values. -/
def exactValue (codec : Codec) : OutboundNode → Option String
  | .str v => some v
  | .num v => some (codec.numberText v)
  | .bool v => some (toString v)
  | _ => none

section

variable (codec : Codec) (config : SerializerConfig)

mutual

/-- `sanitize_node`: the node and the count of properties; nothing is a panic. -/
def sanitizeNode (key : String) (value : OutboundNode) (depth properties : ℕ) :
    Option (OutboundNode × ℕ) :=
  if keyIsRedacted key config then some (.redacted, properties)
  else if (exactValue codec value).any (· ∈ config.redactValues) then some (.redacted, properties)
  else
    match value with
    | .str v =>
      if config.maxString < v.utf8ByteSize then
        (truncateBytes v.toList config.maxString).map fun v => (.str (String.ofList v), properties)
      else some (.str v, properties)
    | .obj c =>
      if config.maxDepth ≤ depth then some (.truncated "depth", properties)
      else
        (sanitizeMembers c (depth + 1) properties).map fun (c, properties) => (.obj c, properties)
    | .unavailable v => some (.unavailable { v with detail := none }, properties)
    | other => some (other, properties)

/-- The loop over the members of an object, and over the values of the paths. -/
def sanitizeMembers (members : List (String × OutboundNode)) (depth properties : ℕ) :
    Option (List (String × OutboundNode) × ℕ) :=
  match members with
  | [] => some ([], properties)
  | (key, value) :: rest =>
    if config.maxProperties ≤ properties then some ([], properties)
    else do
      let (node, properties) ← sanitizeNode key value depth (properties + 1)
      let (others, properties) ← sanitizeMembers rest depth properties
      return ((key, node) :: others, properties)

end

def sanitizeValues (values : List (String × OutboundNode)) :
    Option (List (String × OutboundNode)) := do
  let (children, _) ← sanitizeMembers codec config values 0 0
  if config.maxBytes < codec.membersSize children then
    return [("$truncated", .truncated "props")]
  else return children

def sanitizeRoots (values : List (String × OutboundNode)) : Option OutboundNode :=
  (sanitizeValues codec config values).map .obj

end

/-! ### Paths and logs -/

/-- A dot path between `${` and `}` at the start of a text. -/
def pathAt : List Char → Option (List Char)
  | '$' :: '{' :: rest =>
    let content := rest.takeWhile (· ≠ '}')
    if '}' ∈ rest ∧ (content.splitOn '.').all (· ≠ []) then some content else none
  | _ => none

/-- `captures_iter` of the path pattern, after the characters of a match that are still
to come. -/
def templatePathsFrom : ℕ → List Char → List String
  | _, [] => []
  | n + 1, _ :: t => templatePathsFrom n t
  | 0, c :: t =>
    match pathAt (c :: t) with
    | some path => String.ofList path :: templatePathsFrom (path.length + 2) t
    | none => templatePathsFrom 0 t

def templatePaths (template : String) : List String := templatePathsFrom 0 template.toList

/-- `str::replace`, after the characters of a match that are still to come. -/
def replaceFrom (pattern replacement : List Char) : ℕ → List Char → List Char
  | _, [] => []
  | n + 1, _ :: t => replaceFrom pattern replacement n t
  | 0, c :: t =>
    if pattern <+: c :: t then
      replacement ++ replaceFrom pattern replacement (pattern.length - 1) t
    else c :: replaceFrom pattern replacement 0 t

/-- The text of a node in a log. -/
def renderedNode (codec : Codec) : OutboundNode → String
  | .str v => v
  | .num v => codec.numberText v
  | .bool v => toString v
  | .null => "null"
  | .unavailable _ => "[unavailable]"
  | _ => "[complex]"

/-- `render_log` -/
def renderLog (codec : Codec) (template : String) (values : List (String × OutboundNode)) :
    String :=
  String.ofList (values.foldl (fun output (path, value) =>
    replaceFrom ('$' :: '{' :: path.toList ++ ['}']) (renderedNode codec value).toList 0 output)
    template.toList)

/-! ### Events -/

/-- `serde_json::Value`, of the scalars. -/
inductive ConditionValue
  | null
  | bool (b : Bool)
  | num (q : ℚ)
  | str (s : String)
  deriving DecidableEq

/-- `Condition` -/
structure SiteCondition where
  path : String
  op : String
  value : ConditionValue

/-- `condition_matches` -/
def conditionMatches (actual : OutboundNode) (op : String) (expected : ConditionValue) : Bool :=
  let scalar : Option ConditionValue :=
    match actual with
    | .str v => some (.str v)
    | .num v => some (.num v)
    | .bool v => some (.bool v)
    | .null => some .null
    | _ => none
  match scalar with
  | none => false
  | some value =>
    if op = "eq" then value = expected
    else if op = "ne" then value ≠ expected
    else
      match value, expected with
      | .num a, .num b =>
        if op = "gt" then b < a
        else if op = "gte" then b ≤ a
        else if op = "lt" then a < b
        else if op = "lte" then a ≤ b
        else false
      | _, _ => false

/-- A planned site with the rest of its assignment. -/
structure CaptureSite extends PlannedSite where
  file : String
  line : ℕ
  condition : Option SiteCondition
  watchPaths : Option (List String)
  template : Option String
  metricPath : Option String
  conditional_eq : probe.conditional = condition.isSome

/-- `outbound_paths`, as a list of its elements. -/
def outboundPaths (site : CaptureSite) : Except String (List String) :=
  if site.probe.kind = "counter" then
    if site.condition.isSome then
      .error "unsupported-location-expression: conditional native counters cannot aggregate in BPF"
    else .ok []
  else if site.probe.kind = "snapshot" then
    let paths := site.watchPaths.getD []
    if paths = [] then .error "native snapshots require watchPaths" else .ok paths
  else if site.probe.kind = "metric" then
    match site.metricPath with
    | none => .error "metricPath is required"
    | some path => .ok [path]
  else if site.probe.kind = "log" then
    match site.template with
    | none => .error "template is required"
    | some template => .ok (templatePaths template)
  else .error ("unsupported probe type " ++ site.probe.kind)

/-- What comes of a record. -/
inductive Decoded
  | event (event : NativeEvent)
  | filtered
  | error (message : String)
  | panicked

/-- The event of sanitized values; nothing is no event. -/
def siteEvent (codec : Codec) (config : SerializerConfig) (site : CaptureSite)
    (values : List (String × OutboundNode)) (now : String) : Decoded :=
  if site.probe.kind = "snapshot" then
    match sanitizeRoots codec config values with
    | none => .panicked
    | some captured => .event (.snapshot site.probe.id site.probe.version now captured values)
  else if site.probe.kind = "log" then
    .event (.log site.probe.id site.probe.version now
      (renderLog codec (site.template.getD "") values) "info")
  else if site.probe.kind = "metric" then
    match values.lookup (site.metricPath.getD "") with
    | some (.num v) => .event (.metric site.probe.id site.probe.version now 1 v v v v)
    | _ => .filtered
  else if site.probe.kind = "counter" then .filtered
  else .error "unsupported probe type"

/-- The last check of `decode_event` -/
def withinBudget (codec : Codec) (config : SerializerConfig) : Decoded → Decoded
  | .event event =>
    if codec.eventSize event ≤ config.maxBytes then .event event
    else .error "serialized event exceeds absolute byte budget"
  | decoded => decoded

/-- The values of the paths of a record, by path. -/
def rawValues (decoded : List (String × SanitizedNode)) : List (String × OutboundNode) :=
  decoded.foldl (fun values (path, node) => mapInsert path node.outbound values) []

/-- `decode_event`, of a record of the right size. -/
def decodeRecord (codec : Codec) (config : SerializerConfig) (site : CaptureSite) (raw : RawEvent)
    (now : String) : Decoded :=
  match decodeEvent site.toPlannedSite raw with
  | .error message => .error message
  | .ok decoded =>
    let values := rawValues decoded
    let passes :=
      match site.condition with
      | none => true
      | some condition =>
        (values.lookup condition.path).any fun value =>
          conditionMatches value condition.op condition.value
    if !passes then .filtered
    else
      match outboundPaths site with
      | .error message => .error message
      | .ok paths =>
        match sanitizeValues codec config (values.filter fun value => value.1 ∈ paths) with
        | none => .panicked
        | some values => withinBudget codec config (siteEvent codec config site values now)

end NativeAgent
