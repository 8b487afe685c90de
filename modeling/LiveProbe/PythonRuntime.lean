/-
LiveProbe/PythonRuntime.lean

What the Python agent makes of a captured hit: `_process_hit` of `runtime.py`,
once the hit is reserved, with `_serialize_path`, `_render_template`,
`_snapshot_stack` and `render_expression_template`.

The captured variables are a JSON tree.  A dot path can lead from them to objects
of the interpreter, which `Runtime` stands for.
-/
import LiveProbe.ConditionEvaluator
import LiveProbe.JsMap
import LiveProbe.PythonSerializer

open JsString Binary64

namespace PythonAgent

/-- The interpreter, with what `serialize` and `str` make of objects and floats. -/
structure Runtime (Other : Type) extends Interpreter Other where
  objectShape : Other → Shape (PyObject Other)
  sameObject : Other → Other → Bool
  floatText : Double → PyString

/-! ### Probes and hits -/

/-- `TemplateSegment` -/
inductive PyTemplateSegment
  | text (value : PyString)
  | expression (e : PyExpression)

/-- `Probe`, as far as a hit reads it. -/
structure PyProbe where
  probeId : PyString
  kind : ProbeType
  condition : Option PyCondition := none
  conditionExpression : Option PyExpression := none
  watchPaths : List JsString := []
  watchExpressions : List PyExpression := []
  includeStackLocals : Bool := false
  stackFrameLimit : ℕ := 3
  template : Option JsString := none
  logLevel : LogLevel := .info
  templateSegments : Option (List PyTemplateSegment) := none
  metricPath : Option JsString := none
  metricExpression : Option PyExpression := none

structure StackEntry where
  fn : PyString
  file : PyString
  line : ℕ
  captured : Option (List (JsString × Json))

/-- `RawHit` -/
structure RawHit where
  captured : List (JsString × Json)
  stack : List StackEntry

structure RenderedFrame where
  fn : PyString
  file : PyString
  line : ℕ
  captured : Option Sanitized

/-- What a hit leads to; a sample goes into the next metric event. -/
inductive Produced
  | nothing
  | snapshot (captured : Sanitized) (watches : JsMap PyString Sanitized)
      (stack : List RenderedFrame)
  | log (message : PyString) (level : LogLevel)
  | counter
  | sample (n : PyNumber)
  | error (detail : PyString)

/-! ### Templates -/

/-- A part of a template: a text, or the path between `${` and `}`. -/
inductive Piece
  | text (s : JsString)
  | path (p : JsString)
  deriving DecidableEq

/-- A match of `\$\{([^{}]+)\}` at the start of a text. -/
def matchPath : JsString → Option JsString
  | 0x24 :: 0x7B :: rest =>
    let content := rest.takeWhile fun c => c ≠ 0x7B ∧ c ≠ 0x7D
    if content ≠ [] ∧ rest[content.length]? = some 0x7D then some content else none
  | _ => none

/-- The loop over the matches: the text since the last one, backwards, and the units of
a match that are still to come. -/
def piecesFrom : JsString → ℕ → JsString → List Piece
  | run, _, [] => [.text run.reverse]
  | run, n + 1, _ :: t => piecesFrom run n t
  | run, 0, c :: t =>
    match matchPath (c :: t) with
    | some path => .text run.reverse :: .path path :: piecesFrom [] (path.length + 2) t
    | none => piecesFrom (c :: run) 0 t

def pieces (template : JsString) : List Piece := piecesFrom [] 0 template

section

variable {Other : Type} (runtime : Runtime Other) (config : SerializerLimits)

/-- The captured values; a tree has no cycles. -/
def Runtime.heap : Heap (PyObject Other) where
  view
    | .value .none => .none
    | .value (.bool b) => .bool b
    | .value (.number n) => .number n
    | .value (.str s) => .str s
    | .value (.list items) => .sequence (items.map fun item => .value (.ofJson item))
    | .value (.dict members) =>
      .record (members.map fun m => (some (codePoints m.1), .value (.ofJson m.2)))
    | .other o => runtime.objectShape o
  same
    | .other o, .other p => runtime.sameObject o p
    | _, _ => false

def serializeObject (raw : PyObject Other) (rootKey : Option PyString) : Sanitized :=
  serialize runtime.unicode runtime.heap config raw rootKey

/-- `path.rsplit(".", 1)[-1]` -/
def lastSegment (path : JsString) : PyString :=
  (((codePoints path).splitOn 0x2E).getLast?).getD []

/-- `_serialize_path`; `_MISSING` is an object without a shape. -/
def serializePath (captured : List (JsString × Json)) (path : JsString) : Sanitized :=
  let key := lastSegment path
  if redactsKey runtime.unicode config.toSerializerConfig key then .redacted
  else
    match resolveDotPath runtime.toInterpreter (.value (.dict captured)) (codePoints path) with
    | some value => serializeObject runtime config value (some key)
    | none => .truncated .unsupported

def renderPiece (captured : List (JsString × Json)) : Piece → PyString
  | .text s => codePoints s
  | .path p => renderNode runtime.floatText (serializePath runtime config captured p)

/-- `_render_template` -/
def renderTemplate (template : JsString) (captured : List (JsString × Json)) : PyString :=
  (pieces template).flatMap (renderPiece runtime config captured)

/-- `_render_value` -/
def renderValue : PyValue → PyString
  | .none => py "null"
  | .str s => s
  | .bool b => if b then py "true" else py "false"
  | .number (.int z) => intText z
  | .number (.float a) =>
    if a.value = 0 then py "0"
    else if a.value.den = 1 ∧ a.value.num.natAbs < 10 ^ 21 then intText a.value.num
    else runtime.floatText a
  | .list _ => py "[array]"
  | .dict _ => py "[object]"

def evaluateIn (captured : List (JsString × Json)) (expression : PyExpression) :
    Except String PyValue :=
  evaluateExpression runtime.unicode expression (.obj captured) config.toSerializerConfig

/-- The text of a segment of an expression template. -/
def renderSegment (captured : List (JsString × Json)) : PyTemplateSegment → PyString
  | .text value => value
  | .expression e =>
    match evaluateIn runtime config captured e with
    | .ok value => renderValue runtime value
    | .error error => py "<expression-error:" ++ py error ++ py ">"

/-- The loop of `render_expression_template`, after what is rendered. -/
def renderSegments (captured : List (JsString × Json)) :
    PyString → List PyTemplateSegment → PyString
  | rendered, [] => rendered
  | rendered, segment :: rest =>
    let rendered := rendered ++ renderSegment runtime config captured segment
    if 4096 ≤ rendered.length then rendered.take 4096 else renderSegments captured rendered rest

/-! ### Hits -/

/-- The watch of an expression -/
def watchExpression (captured : List (JsString × Json)) (expression : PyExpression) : Sanitized :=
  match evaluateIn runtime config captured expression with
  | .ok value => serializeObject runtime config (.value value) none
  | .error _ => .truncated .unsupported

def watchesOf (probe : PyProbe) (captured : List (JsString × Json)) : JsMap PyString Sanitized :=
  let paths := probe.watchPaths.foldl (fun watches path =>
    watches.set (codePoints path) (serializePath runtime config captured path)) ∅
  probe.watchExpressions.foldl (fun watches expression =>
    watches.set expression.source (watchExpression runtime config captured expression)) paths

/-- `_snapshot_stack` -/
def snapshotStack (probe : PyProbe) (stack : List StackEntry) : List RenderedFrame :=
  let selected := if probe.includeStackLocals then stack.take probe.stackFrameLimit else stack
  selected.map fun entry =>
    { fn := entry.fn, file := entry.file, line := entry.line
      captured :=
        if probe.includeStackLocals then
          some (serializeObject runtime config (.value (.dict (entry.captured.getD []))) none)
        else none }

/-- The sample of a metric probe, or the detail of the error. -/
def metricSample (probe : PyProbe) (captured : List (JsString × Json)) :
    Except PyString PyNumber :=
  match probe.metricExpression with
  | none =>
    let path := probe.metricPath.getD []
    if redactsKey runtime.unicode config.toSerializerConfig (lastSegment path) then
      .error (py "metric path is redacted by policy")
    else
      match (resolveDotPath runtime.toInterpreter (.value (.dict captured))
        (codePoints path)).bind asNumber with
      | some n => .ok n
      | none => .error (py "invalid-metric: " ++ codePoints path)
  | some expression =>
    let detail (error : String) : PyString :=
      py "invalid-metric: " ++ expression.source ++ py " (" ++ py error ++ py ")"
    match evaluateIn runtime config captured expression with
    | .ok (.number n) => .ok n
    | .ok _ => .error (detail "expected-number")
    | .error error => .error (detail error)

/-- The turn of `_process_hit` for an active probe, with a reservation. -/
def processHit (probe : PyProbe) (hit : RawHit) : Produced :=
  if !conditionMatches runtime.toInterpreter probe.condition hit.captured then .nothing
  else
    let passes : Bool :=
      match probe.conditionExpression with
      | none => true
      | some expression =>
        match evaluateIn runtime config hit.captured expression with
        | .ok (.bool b) => b
        | _ => false
    if !passes then .nothing
    else
      match probe.kind with
      | .snapshot =>
        .snapshot (serializeObject runtime config (.value (.dict hit.captured)) none)
          (watchesOf runtime config probe hit.captured) (snapshotStack runtime config probe hit.stack)
      | .log =>
        .log
          (match probe.templateSegments with
            | none => renderTemplate runtime config (probe.template.getD []) hit.captured
            | some segments => renderSegments runtime config hit.captured [] segments)
          probe.logLevel
      | .counter => .counter
      | .metric =>
        match metricSample runtime config probe hit.captured with
        | .ok n => .sample n
        | .error detail => .error detail

end

end PythonAgent
