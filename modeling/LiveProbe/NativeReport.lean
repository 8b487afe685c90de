/-
LiveProbe/NativeReport.lean

What the native agent sends, and what the broker reads of it.

Beside the events of records (`decodeRecord`) the agent sends counter deltas and
statuses: `send_status` and `send_site_status` of `main.rs`, which every call
gives a status name and a reason of its own (`statusCalls`, `siteStatusCalls`).
`onWire` is the event that the broker parses from the encoding, if the names in it
are names the schema knows; `accepted` is the verdict of `NativeProbeEventSchema`.
-/
import LiveProbe.AgentLoop
import LiveProbe.CodePoints
import LiveProbe.Events
import LiveProbe.NativeEvent

open JsString

namespace NativeAgent

/-! ### Statuses -/

/-- `ResolutionStatus` -/
structure ResolutionStatus where
  sourceFile : String
  line : ℕ
  resolvedSiteCount : UInt32
  requestedPathCount : UInt32

/-- `NativeEvent::Status` -/
structure StatusEvent where
  probeId : String
  ts : String
  status : String
  reasonCode : Option String
  agentId : String
  instanceId : String
  buildId : String
  probeVersion : ℕ
  siteId : Option String
  physicalSiteCount : Option UInt32
  resolution : Option ResolutionStatus
  rawHitRate : Option ℚ≥0
  droppedEventCount : Option UInt64
  detail : Option String

/-- `sanitize_diagnostic_detail`; nothing is a panic. -/
def sanitizeDiagnosticDetail (config : SerializerConfig) : Option String → Option (Option String)
  | none => some none
  | some value =>
    let lower := asciiLowercase value
    if config.redactKeys.any (fun pattern => asciiLowercase pattern <:+: lower) ∨
        config.redactValues.any (fun secret => secret ≠ "" ∧ secret.toList <:+: value.toList) then
      some (some "[redacted]")
    else if config.maxString < value.utf8ByteSize then
      (truncateBytes value.toList config.maxString).map fun value => some (String.ofList value)
    else some (some value)

/-- The event of `send_status`; nothing is a panic. -/
def sendStatus (config : SerializerConfig) (agentId : String) (target : DiscoveredInstance)
    (probeId ts status : String) (reason : Option String) (detail : Option String)
    (probeVersion : Option ℕ) : Option StatusEvent :=
  (sanitizeDiagnosticDetail config detail).map fun detail =>
    { probeId, ts, status, agentId, detail
      reasonCode := reason
      instanceId := target.instanceId
      buildId := target.buildId
      probeVersion := probeVersion.getD 1
      siteId := none
      physicalSiteCount := none
      resolution := none
      rawHitRate := none
      droppedEventCount := none }

/-- `u32::try_from(..).unwrap_or(u32::MAX)` -/
def saturatingU32 (n : ℕ) : UInt32 := UInt32.ofNat (min n (2 ^ 32 - 1))

/-- The event of `send_site_status`; nothing is a panic. -/
def sendSiteStatus (config : SerializerConfig) (agentId : String) (target : DiscoveredInstance)
    (site : CaptureSite) (ts status : String) (reason : Option String) (detail : Option String)
    (physicalSiteCount : Option UInt32) (rawHitRate : Option ℚ≥0)
    (droppedEventCount : Option UInt64) : Option StatusEvent :=
  (sanitizeDiagnosticDetail config detail).map fun detail =>
    { ts, status, agentId, physicalSiteCount, rawHitRate, droppedEventCount, detail
      probeId := site.probe.id
      reasonCode := reason
      instanceId := target.instanceId
      buildId := target.buildId
      probeVersion := site.probe.version
      siteId := some site.siteId
      resolution := some
        { sourceFile := site.file
          line := site.line
          resolvedSiteCount := physicalSiteCount.getD 1
          requestedPathCount := saturatingU32 (site.slotPaths.length + site.unavailable.length) } }

/-- The reasons of `candidate_issue` and `permission_issue`. -/
def discoveryReasons : List String :=
  ["process-inspection-failed", "ambiguous-service-match", "process-metadata-invalid",
    "invalid-build-identity", "no-build-id", "unsupported-architecture",
    "process-inspection-permission-denied"]

/-- The reasons `reason_from_error` gives. -/
def planningReasons : List String :=
  ["no-debug-info", "no-line-info", "source-file-not-found", "source-file-ambiguous",
    "no-executable-address", "variable-not-found", "variable-optimized-out",
    "unsupported-location-expression", "unsupported-register-piece", "unsupported-type"]

/-- The status and the reason of each call of `send_status`. -/
def statusCalls : List (String × String) :=
  (discoveryReasons ++ "build-mismatch" :: planningReasons).map (fun reason => ("error", reason)) ++
    [("error", "capture-event-invalid"), ("error", "local-policy-denied"),
      ("error", "uprobe-attach-failed"), ("suspended", "raw-hit-budget-exceeded")]

/-- The status and the reason of each call of `send_site_status`. -/
def siteStatusCalls : List (String × Option String) :=
  [("armed", none), ("armed", some "ring-buffer-full"), ("error", some "capture-event-invalid"),
    ("suspended", some "capture-event-invalid"), ("expired", none),
    ("suspended", some "raw-hit-budget-exceeded"), ("hit-limit-reached", none),
    ("error", some "uprobe-attach-failed")]

/-! ### The wire -/

/-- What an agent sends. -/
inductive Report
  | captured (event : NativeEvent)
  | counter (probeId : String) (probeVersion : ℕ) (ts : String) (delta : ℕ)
  | status (status : StatusEvent)

/-- The UTF-16 units of a text that is sent. -/
def wire (s : String) : JsString := s.toList.flatMap fun c => pointUnits c.toNat

/-- `NATIVE_STATUS_NAMES` -/
def statusName : String → Option ProbeStatusName
  | "armed" => some .armed
  | "error" => some .error
  | "hit-limit-reached" => some .hitLimitReached
  | "suspended" => some .suspended
  | "expired" => some .expired
  | _ => none

/-- `NATIVE_REASON_CODES` -/
def nativeReasonCode : String → Option NativeReasonCode
  | "service-not-found" => some .serviceNotFound
  | "ambiguous-service-match" => some .ambiguousServiceMatch
  | "target-instance-changed" => some .targetInstanceChanged
  | "build-mismatch" => some .buildMismatch
  | "no-build-id" => some .noBuildId
  | "no-debug-info" => some .noDebugInfo
  | "no-line-info" => some .noLineInfo
  | "source-file-not-found" => some .sourceFileNotFound
  | "source-file-ambiguous" => some .sourceFileAmbiguous
  | "no-executable-address" => some .noExecutableAddress
  | "variable-not-found" => some .variableNotFound
  | "variable-optimized-out" => some .variableOptimizedOut
  | "unsupported-location-expression" => some .unsupportedLocationExpression
  | "unsupported-register-piece" => some .unsupportedRegisterPiece
  | "unsupported-type" => some .unsupportedType
  | "floating-point-register-unavailable" => some .floatingPointRegisterUnavailable
  | "attach-permission-denied" => some .attachPermissionDenied
  | "uprobe-attach-failed" => some .uprobeAttachFailed
  | "raw-hit-budget-exceeded" => some .rawHitBudgetExceeded
  | "ring-buffer-full" => some .ringBufferFull
  | "local-policy-denied" => some .localPolicyDenied
  | "process-inspection-permission-denied" => some .processInspectionPermissionDenied
  | "capture-event-invalid" => some .captureEventInvalid
  | "process-inspection-failed" => some .processInspectionFailed
  | "process-metadata-invalid" => some .processMetadataInvalid
  | "invalid-build-identity" => some .invalidBuildIdentity
  | "unsupported-architecture" => some .unsupportedArchitecture
  | _ => none

def truncationKind : String → Option TruncationKind
  | "depth" => some .depth
  | "array" => some .array
  | "props" => some .props
  | "string" => some .string
  | "circular" => some .circular
  | "unsupported" => some .unsupported
  | _ => none

/-- `LogLevelSchema` -/
def logLevel : String → Option LogLevel
  | "debug" => some .debug
  | "info" => some .info
  | "warn" => some .warn
  | "error" => some .error
  | _ => none

mutual

/-- A node as it is parsed; nothing is a name that no schema has. -/
def OutboundNode.onWire : OutboundNode → Option SerializedNode
  | .str v => some (.str (wire v))
  | .num v => some (.num v)
  | .bool v => some (.bool v)
  | .null => some .null
  | .obj c => (membersOnWire c).map fun c => .obj c false
  | .redacted => some .redacted
  | .truncated v => (truncationKind v).map .truncated
  | .unavailable v => (nativeReasonCode v.reasonCode).map fun reasonCode =>
    .unavailable ⟨reasonCode, v.detail.map wire, v.siteId.map wire, v.buildId.map wire⟩

def membersOnWire : List (String × OutboundNode) → Option (List (JsString × SerializedNode))
  | [] => some []
  | (key, value) :: rest => do
    let value ← value.onWire
    let rest ← membersOnWire rest
    return (wire key, value) :: rest

end

def NativeEvent.onWire : NativeEvent → Option ProbeEvent
  | .snapshot probeId probeVersion ts captured watches => do
    let captured ← captured.onWire
    let watches ← membersOnWire watches
    return ⟨wire probeId, some probeVersion, wire ts, .snapshot captured watches []⟩
  | .log probeId probeVersion ts message level => do
    let level ← logLevel level
    return ⟨wire probeId, some probeVersion, wire ts, .log (wire message) level⟩
  | .metric probeId probeVersion ts count sum min max last =>
    some ⟨wire probeId, some probeVersion, wire ts, .metric count sum min max last⟩

def ResolutionStatus.onWire (resolution : ResolutionStatus) : Resolution where
  sourceFile := wire resolution.sourceFile
  line := resolution.line
  resolvedSiteCount := resolution.resolvedSiteCount.toNat
  requestedPathCount := resolution.requestedPathCount.toNat

def StatusEvent.metadata (event : StatusEvent) (reasonCode : Option NativeReasonCode) :
    NativeStatusMetadata where
  reasonCode := reasonCode
  agentId := some (wire event.agentId)
  instanceId := some (wire event.instanceId)
  buildId := some (wire event.buildId)
  siteId := event.siteId.map wire
  resolution := event.resolution.map ResolutionStatus.onWire
  physicalSiteCount := event.physicalSiteCount.map UInt32.toNat
  rawHitRate := event.rawHitRate.map fun rate : ℚ≥0 => (rate : ℚ)
  droppedEventCount := event.droppedEventCount.map UInt64.toNat

/-- The reason of a status; nothing is a name that no schema has. -/
def reasonOnWire : Option String → Option (Option NativeReasonCode)
  | none => some none
  | some reason => (nativeReasonCode reason).map some

def StatusEvent.onWire (event : StatusEvent) : Option ProbeEvent := do
  let status ← statusName event.status
  let reasonCode ← reasonOnWire event.reasonCode
  return ⟨wire event.probeId, some event.probeVersion, wire event.ts,
    .status status (event.detail.map wire) (event.metadata reasonCode)⟩

/-- The event the broker parses. -/
def Report.onWire : Report → Option ProbeEvent
  | .captured event => event.onWire
  | .counter probeId probeVersion ts delta =>
    some ⟨wire probeId, some probeVersion, wire ts, .counter delta⟩
  | .status event => event.onWire

/-- `NativeProbeEventSchema` admits the report. -/
def Report.accepted (report : Report) : Bool :=
  (report.onWire.bind Protocol.nativeProbeEventSchema).isSome

end NativeAgent
