/-
LiveProbe/Probes.lean

The probe operations of `BrokerState`: create, delete, list, read and poll, with
the source maps a poll consults.

`createProbe` first compiles the request's expressions, then checks what the
service's backend and its agents support, draws an identifier, and only then
changes the probes.  The checks change nothing but the service's capabilities,
which they refresh.
-/
import LiveProbe.State

open JsString

namespace Broker

/-! ### Compiling a request -/

/-- `invalidExpression` -/
def invalidExpression {α : Type} : Except JsString α → Except BrokerError α
  | .ok a => .ok a
  | .error message => .error (.http 400 (js "invalid_expression") message)

/-- An optional source text, compiled. -/
def compileOptional (jsep : JsString → Except JsString JsepNode) :
    Option JsString → Except BrokerError (Option CompiledExpression)
  | none => .ok none
  | some source => (invalidExpression (Expression.compileExpression jsep source)).map some

/-- An optional list of source texts, compiled up to the first that fails. -/
def compileList (jsep : JsString → Except JsString JsepNode) :
    Option (List JsString) → Except BrokerError (Option (List CompiledExpression))
  | none => .ok none
  | some sources =>
    (invalidExpression (sources.mapM (Expression.compileExpression jsep))).map some

/-- The part of `compileProbeInput` that depends on the type. -/
def compileBody (jsep : JsString → Except JsString JsepNode) :
    InputBody → Except BrokerError DefinitionBody
  | .snapshot watchPaths watchExpressions includeStackLocals stackFrameLimit => do
    let watchExpressions ← compileList jsep watchExpressions
    return .snapshot watchPaths watchExpressions includeStackLocals stackFrameLimit
  | .log template logLevel => do
    let templateSegments ← invalidExpression (Expression.compileTemplate jsep template)
    return .log template logLevel templateSegments
  | .counter => .ok .counter
  | .metric metricPath metricExpression => do
    if metricPath.isNone = metricExpression.isNone then
      throw (.http 400 (js "invalid_request")
        (js "metric probes require exactly one of metricPath or metricExpression"))
    let metricExpression ← compileOptional jsep metricExpression
    return .metric metricPath metricExpression

def compileProbeInput (jsep : JsString → Except JsString JsepNode) (input : CreateProbeInput) :
    Except BrokerError CompiledInput := do
  if input.condition.isSome ∧ input.conditionExpression.isSome then
    throw (.http 400 (js "invalid_request")
      (js "condition and conditionExpression are mutually exclusive"))
  let conditionExpression ← compileOptional jsep input.conditionExpression
  let body ← compileBody jsep input.body
  return {
    serviceId := input.serviceId, sourceCommit := input.sourceCommit, file := input.file
    line := input.line, condition := input.condition, conditionExpression
    ttlSeconds := input.ttlSeconds, createdBy := input.createdBy, hitLimit := input.hitLimit
    body }

/-- A compiled input has the fields of its request, expressions compiled. -/
theorem compileProbeInput_eq_ok {jsep : JsString → Except JsString JsepNode}
    {input : CreateProbeInput} {c : CompiledInput} (h : compileProbeInput jsep input = .ok c) :
    ∃ conditionExpression body,
      compileOptional jsep input.conditionExpression = .ok conditionExpression ∧
      compileBody jsep input.body = .ok body ∧
      c = { serviceId := input.serviceId, sourceCommit := input.sourceCommit, file := input.file
            line := input.line, condition := input.condition, conditionExpression
            ttlSeconds := input.ttlSeconds, createdBy := input.createdBy
            hitLimit := input.hitLimit, body } := by
  simp only [compileProbeInput, bind, Except.bind, pure, Except.pure] at h
  split at h
  · cases h
  split at h
  · cases h
  next e he =>
  split at h
  · cases h
  next body hb => exact ⟨e, body, he, hb, (Except.ok.inj h).symm⟩

/-- The matches of `/\$\{([^.}]+(?:\.[^.}]+)*)\}/gu` -/
def pathMatches (template : JsString) : List (ℕ × JsString) :=
  Expression.matchAll (fun c => c ≠ 0x7D) Protocol.isDotPath 0 0 template

/-- `nativeCapturePaths` -/
def nativeCapturePaths (input : CreateProbeInput) : List JsString :=
  let condition := (input.condition.map (·.path)).toList
  let body := match input.body with
    | .snapshot watchPaths .. => watchPaths.getD []
    | .metric metricPath _ => metricPath.toList
    | .log template _ => (pathMatches template).map (·.2)
    | .counter => []
  (condition ++ body).eraseDups

def requiresExpressionCapability (c : CompiledInput) : Bool :=
  c.conditionExpression.isSome ||
    match c.body with
    | .snapshot _ watchExpressions _ _ => watchExpressions.isSome
    | .log _ _ templateSegments => templateSegments.isSome
    | .metric _ metricExpression => metricExpression.isSome
    | .counter => false

/-! ### What a service supports -/

/-- The option of a request that the native backend lacks, and what to use in
its place. -/
def nativeUnsupported (input : CreateProbeInput) : Option (JsString × JsString) :=
  if input.conditionExpression.isSome then
    some (js "conditionExpression", js "simple condition")
  else match input.body with
    | .snapshot _ watchExpressions includeStackLocals stackFrameLimit =>
      if watchExpressions.isSome then some (js "watchExpressions", js "watchPaths")
      else if includeStackLocals then some (js "includeStackLocals", js "bounded watchPaths")
      else if stackFrameLimit ≠ 3 then some (js "stackFrameLimit", js "omit stack capture options")
      else none
    | .metric _ metricExpression =>
      if metricExpression.isSome then some (js "metricExpression", js "metricPath") else none
    | .counter =>
      if input.condition.isSome then some (js "condition", js "an unconditional counter") else none
    | .log _ logLevel => if logLevel ≠ .info then some (js "logLevel", js "info") else none

def unsupportedByBackend (message : JsString) : BrokerError :=
  .http 409 (js "unsupported_by_backend") message

/-- The checks on a request for a native service. -/
def checkNativeBackend (input : CreateProbeInput) : Except BrokerError Unit := do
  if let some (what, instead) := nativeUnsupported input then
    throw (unsupportedByBackend (js "native-ebpf service " ++ input.serviceId ++
      js " does not support " ++ what ++ js "; use " ++ instead))
  if let .snapshot watchPaths _ _ _ := input.body then
    if watchPaths.getD [] = [] then
      throw (unsupportedByBackend (js "native-ebpf service " ++ input.serviceId ++
        js " requires at least one bounded watchPath"))
  let capturePathCount := (nativeCapturePaths input).length
  if capturePathCount > nativeMaxCaptureSlots then
    throw (unsupportedByBackend (js "native-ebpf service " ++ input.serviceId ++
      js " requires " ++ decimal capturePathCount ++
      js " unique capture paths, but the native ABI supports at most " ++
      decimal nativeMaxCaptureSlots ++ js " including condition paths"))

/-- A capability the service must report when `needed`. -/
def checkCapability (service : Option ServiceRecord) (serviceId capability : JsString)
    (needed : Bool) : Except BrokerError Unit :=
  if needed ∧ capability ∉ (service.bind (·.capabilities)).getD [] then
    .error (.http 409 (js "agent_upgrade_required")
      (js "service " ++ serviceId ++ js " does not report " ++ capability))
  else .ok ()

/-- The checks of `createProbe` on the service a request is for. -/
def checkService (service : Option ServiceRecord) (input : CreateProbeInput) (c : CompiledInput) :
    Except BrokerError Unit := do
  if (service.bind (·.backend)) = some .nativeEbpf then checkNativeBackend input
  checkCapability service input.serviceId (js "log-levels-v1") <|
    match input.body with
    | .log _ logLevel => logLevel ≠ .info
    | _ => false
  checkCapability service input.serviceId (js "expression-ast-v1") (requiresExpressionCapability c)
  checkCapability service input.serviceId (js "frame-locals-v1") <|
    match input.body with
    | .snapshot _ _ includeStackLocals _ => includeStackLocals
    | _ => false

end Broker

namespace BrokerState

open Broker

/-! ### Create and delete -/

/-- The identifier `createProbe` settles on: the first of eleven draws that no
probe has. -/
def drawProbeId (s : BrokerState) (draws : ℕ → JsString) : Option JsString :=
  ((List.range 11).map draws).find? fun id => !s.probes.has id

/-- The definition `createProbe` parses. -/
def newDefinition (c : CompiledInput) (id : JsString) (version : ℕ) : ProbeDefinition :=
  { toCompiledInput := c, id, version, runtimeLocation := none, runtimeLine := none,
    runtimeColumn := none }

/-- The last part of `createProbe`: a probe enters the maps. -/
def insertProbe (now : ℕ) (scope : ResourceScope) (probe : ProbeDefinition) (s : BrokerState) :
    BrokerState :=
  { s with
    probes := s.probes.set probe.id
      { scope, probe, expiresAt := now + probe.ttlSeconds * 1000, expired := false }
    events := s.events.set probe.id [] }

/-- `createProbe`; `draws` are the identifiers the generator gives in turn. -/
def createProbe (cfg : Config) (now : ℕ) (draws : ℕ → JsString) (input : CreateProbeInput)
    (scope : ResourceScope) (s : BrokerState) : BrokerState × Except BrokerError ProbeDefinition :=
  match compileProbeInput cfg.jsep input with
  | .error e => (s, .error e)
  | .ok compiled =>
    let s := s.refreshServiceCapabilities now scope input.serviceId
    match checkService (s.services.get? (serviceKey scope input.serviceId)) input compiled with
    | .error e => (s, .error e)
    | .ok () =>
      match s.drawProbeId draws with
      | none => (s, .error (.failure (js "probe id generator repeatedly produced collisions")))
      | some id =>
        if Protocol.isProbeId id then
          let version := s.serviceVersion scope input.serviceId + 1
          let s := s.incrementServiceVersion input.serviceId scope
          match Protocol.probeDefinitionSchema (newDefinition compiled id version) with
          | none => (s, .error .invalid)
          | some probe => (s.insertProbe now scope probe, .ok probe)
        else (s, .error .invalid)

/-- The removal of a probe from the maps. -/
def removeProbe (now : ℕ) (id : JsString) (s : BrokerState) : BrokerState :=
  { s with
    probes := s.probes.delete id
    events := s.events.delete id
    statuses := s.statuses.delete id
    recentlyRemovedProbes := s.recentlyRemovedProbes.set id now }

def deleteProbe (now : ℕ) (id : JsString) (scope : ResourceScope) (s : BrokerState) :
    BrokerState × Bool :=
  match s.probes.get? id with
  | none => (s, false)
  | some stored =>
    if stored.scope = scope then
      let s := if stored.expired then s
        else s.incrementServiceVersion stored.probe.serviceId stored.scope
      (s.removeProbe now id, true)
    else (s, false)

/-- `pruneRemovedProbes` -/
def pruneRemovedProbes (now : ℕ) (s : BrokerState) : BrokerState :=
  { s with
    recentlyRemovedProbes :=
      s.recentlyRemovedProbes.filter fun _ removedAt => now < removedAt + removedProbeGraceMs }

/-! ### Reads -/

/-- The probe of an identifier, when it belongs to the scope. -/
def ownProbe (s : BrokerState) (id : JsString) (scope : ResourceScope) : Option StoredProbe :=
  (s.probes.get? id).filter fun stored => stored.scope = scope

def listProbes (cfg : Config) (now : ℕ) (serviceId : Option JsString) (scope : ResourceScope)
    (s : BrokerState) : BrokerState × List (ProbeDefinition × Option ProbeStatus) :=
  let s := s.expireDueProbes cfg now
  (s, (s.probes.values.filter fun stored =>
        stored.scope = scope && (serviceId.all fun id => stored.probe.serviceId = id)).map
      fun stored => (stored.probe, s.statuses.get? stored.probe.id))

def getProbe (cfg : Config) (now : ℕ) (id : JsString) (scope : ResourceScope) (s : BrokerState) :
    BrokerState × Option ProbeDefinition :=
  let s := s.expireDueProbes cfg now
  (s, (s.ownProbe id scope).map (·.probe))

def getEvents (cfg : Config) (now : ℕ) (id : JsString) (scope : ResourceScope) (s : BrokerState) :
    BrokerState × List ProbeEvent :=
  let s := s.expireDueProbes cfg now
  (s, match s.ownProbe id scope with
    | none => []
    | some _ => (s.events.get? id).getD [])

def getStatus (cfg : Config) (now : ℕ) (id : JsString) (scope : ResourceScope) (s : BrokerState) :
    BrokerState × Option ProbeStatus :=
  let s := s.expireDueProbes cfg now
  (s, (s.ownProbe id scope).bind fun _ => s.statuses.get? id)

/-! ### Polls -/

/-- A definition with the location a source map gives for it. -/
def withLocation (probe : ProbeDefinition) (l : RuntimeLocation) : ProbeDefinition :=
  { probe with
    runtimeLocation := some l.runtimeLocation
    runtimeLine := some l.runtimeLine
    runtimeColumn := some l.runtimeColumn }

/-- The source maps of a commit, when the set is complete. -/
def completeMaps (s : BrokerState) (scope : ResourceScope) (serviceId commitSha : JsString) :
    Option (List StoredSourceMap) :=
  (s.sourceMapSets.get? (sourceMapKey scope serviceId commitSha)).bind fun set =>
    if set.complete then some set.maps.values else none

/-- `withRuntimeLocation`, over the complete source maps of the commit; the
parse may throw. -/
def withRuntimeLocation (cfg : Config) (maps : Option (List StoredSourceMap))
    (probe : ProbeDefinition) : Except BrokerError ProbeDefinition :=
  match maps with
  | none => .ok probe
  | some maps =>
    match cfg.resolveSourceLocation maps probe.file probe.line with
    | none => .ok probe
    | some l =>
      match Protocol.probeDefinitionSchema (withLocation probe l) with
      | none => .error .invalid
      | some probe => .ok probe

/-- The definitions a service's agents are to run. -/
def activeProbes (s : BrokerState) (scope : ResourceScope) (serviceId : JsString) :
    List ProbeDefinition :=
  (s.probes.values.filter fun stored =>
    stored.scope = scope && stored.probe.serviceId = serviceId && !stored.expired).map (·.probe)

end BrokerState

inductive PollResponse
  | unchanged (version : ℕ)
  | full (version : ℕ) (probes : List ProbeDefinition)
  deriving DecidableEq, Repr

namespace BrokerState

/-- The active definitions of a service with the locations of a commit. -/
def located (cfg : Config) (serviceId : JsString) (commitSha : Option JsString)
    (scope : ResourceScope) (s : BrokerState) : Except BrokerError (List ProbeDefinition) :=
  (s.activeProbes scope serviceId).mapM
    (withRuntimeLocation cfg (commitSha.bind (s.completeMaps scope serviceId)))

/-- The answer of `pollProbes` in a state where nothing is due. -/
def pollAnswer (cfg : Config) (serviceId : JsString) (since : ℤ) (commitSha : Option JsString)
    (scope : ResourceScope) (s : BrokerState) : Except BrokerError PollResponse :=
  let version := s.serviceVersion scope serviceId
  if since = version then .ok (.unchanged version)
  else (s.located cfg serviceId commitSha scope).map (.full version)

def pollProbes (cfg : Config) (now : ℕ) (serviceId : JsString) (since : ℤ)
    (commitSha : Option JsString) (scope : ResourceScope) (s : BrokerState) :
    BrokerState × Except BrokerError PollResponse :=
  let s := s.expireDueProbes cfg now
  let s := s.touchService now serviceId none none none none scope none
  (s, s.pollAnswer cfg serviceId since commitSha scope)

end BrokerState
