/-
LiveProbe/Events.lean

What agents report: captured values, probe events, statuses, capabilities and
the native agents' registrations and instances, with their schemas.

An event has two schemas.  The broker's own (`probeEventSchema`) reads the
events of `/v1/ingest` and of snapshots, the protocol package's
(`nativeProbeEventSchema`) reads the native agents' envelopes.  They differ in
three places: only the broker's lower-cases the build identifier of an
unavailable value, only the native one trims site identifiers and stack
files, and only the native one requires the probe version.
-/
import LiveProbe.Protocol

open JsString Schema

/-! ### Status metadata -/

/-- `NATIVE_REASON_CODES` -/
inductive NativeReasonCode
  | serviceNotFound | ambiguousServiceMatch | targetInstanceChanged | buildMismatch
  | noBuildId | noDebugInfo | noLineInfo | sourceFileNotFound | sourceFileAmbiguous
  | noExecutableAddress | variableNotFound | variableOptimizedOut
  | unsupportedLocationExpression | unsupportedRegisterPiece | unsupportedType
  | floatingPointRegisterUnavailable | attachPermissionDenied | uprobeAttachFailed
  | rawHitBudgetExceeded | ringBufferFull | localPolicyDenied
  | processInspectionPermissionDenied | captureEventInvalid | processInspectionFailed
  | processMetadataInvalid | invalidBuildIdentity | unsupportedArchitecture
  deriving DecidableEq, Repr

/-- `StatusNameSchema` -/
inductive ProbeStatusName
  | armed | error | hitLimitReached | suspended | expired
  deriving DecidableEq, Repr

structure Resolution where
  sourceFile : JsString
  line : ℕ
  resolvedSiteCount : ℕ
  requestedPathCount : ℕ
  deriving DecidableEq, Repr

structure VariableAvailability where
  path : JsString
  available : Bool
  reasonCode : Option NativeReasonCode
  siteIds : List JsString
  deriving DecidableEq, Repr

/-- `NativeStatusMetadataSchema`, without `probeVersion`, which every event has. -/
structure NativeStatusMetadata where
  reasonCode : Option NativeReasonCode := none
  agentId : Option JsString := none
  instanceId : Option JsString := none
  buildId : Option JsString := none
  siteId : Option JsString := none
  resolution : Option Resolution := none
  variableAvailability : Option (List VariableAvailability) := none
  physicalSiteCount : Option ℕ := none
  rawHitRate : Option ℚ := none
  droppedEventCount : Option ℕ := none
  deriving DecidableEq, Repr

namespace Protocol

/-- `boundedIdSchema` -/
def boundedIdSchema (maximum : ℕ) : Schema JsString := trimmed 1 maximum

/-- The protocol package's `buildIdSchema`, which leaves the case as it is. -/
def nativeBuildIdSchema : Schema JsString :=
  refine fun s => decide (8 ≤ s.length ∧ s.length ≤ 128) && s.all isHexUnit

def nonnegativeNumber : Schema ℚ := refine fun q => 0 ≤ q

def resolutionSchema : Schema Resolution := fun r => do
  let sourceFile ← sourceFileSchema r.sourceFile
  let line ← positiveInt r.line
  let resolvedSiteCount ← nonnegativeInt r.resolvedSiteCount
  let requestedPathCount ← nonnegativeInt r.requestedPathCount
  return { sourceFile, line, resolvedSiteCount, requestedPathCount }

def variableAvailabilitySchema : Schema VariableAvailability := fun v => do
  let path ← dotPathSchema v.path
  let siteIds ← boundedArray (boundedIdSchema 300) 0 256 v.siteIds
  return { v with path, siteIds }

def nativeStatusMetadataSchema : Schema NativeStatusMetadata := fun m => do
  let agentId ← optional (boundedIdSchema 200) m.agentId
  let instanceId ← optional (boundedIdSchema 300) m.instanceId
  let buildId ← optional nativeBuildIdSchema m.buildId
  let siteId ← optional (boundedIdSchema 300) m.siteId
  let resolution ← optional resolutionSchema m.resolution
  let variableAvailability ←
    optional (boundedArray variableAvailabilitySchema 0 100) m.variableAvailability
  let physicalSiteCount ← optional nonnegativeInt m.physicalSiteCount
  let rawHitRate ← optional nonnegativeNumber m.rawHitRate
  let droppedEventCount ← optional nonnegativeInt m.droppedEventCount
  return { m with
    agentId, instanceId, buildId, siteId, resolution, variableAvailability,
    physicalSiteCount, rawHitRate, droppedEventCount }

end Protocol

/-- `ProbeStatus` -/
structure ProbeStatus extends NativeStatusMetadata where
  status : ProbeStatusName
  updatedAt : JsString
  detail : Option JsString := none
  armedAt : Option JsString := none
  probeVersion : Option ℕ := none
  deriving DecidableEq, Repr

namespace Protocol

/-- `persistedStatusSchema` -/
def persistedStatusSchema : Schema ProbeStatus := fun s => do
  let metadata ← nativeStatusMetadataSchema s.toNativeStatusMetadata
  let updatedAt ← timestampSchema s.updatedAt
  let detail ← optional (text 0 4096) s.detail
  let armedAt ← optional timestampSchema s.armedAt
  let probeVersion ← optional positiveInt s.probeVersion
  return { toNativeStatusMetadata := metadata, status := s.status, updatedAt, detail, armedAt,
           probeVersion }

end Protocol

/-! ### Captured values -/

/-- `UnavailableValueMetadataSchema` -/
structure UnavailableValue where
  reasonCode : NativeReasonCode
  detail : Option JsString := none
  siteId : Option JsString := none
  buildId : Option JsString := none
  deriving DecidableEq, Repr

inductive TruncationKind
  | depth | array | props | string | circular | unsupported
  deriving DecidableEq, Repr

/-- `SerializedNode`.  The optional marker `m` of an object or array has one
possible value, so it is a flag here. -/
inductive SerializedNode
  | str (v : JsString)
  | num (v : ℚ)
  | bool (v : Bool)
  | null
  | fn
  | redacted
  | unavailable (v : UnavailableValue)
  | truncated (v : TruncationKind)
  | obj (c : List (JsString × SerializedNode)) (m : Bool)
  | arr (c : List SerializedNode) (m : Bool)

namespace Protocol

/-- The broker's reading of an unavailable value. -/
def unavailableValueSchema : Schema UnavailableValue := fun v => do
  let detail ← optional (text 0 4096) v.detail
  let siteId ← optional (text 0 300) v.siteId
  let buildId ← optional buildIdSchema v.buildId
  return { v with detail, siteId, buildId }

/-- The protocol package's reading of an unavailable value. -/
def nativeUnavailableValueSchema : Schema UnavailableValue := fun v => do
  let detail ← optional (text 0 4096) v.detail
  let siteId ← optional (boundedIdSchema 300) v.siteId
  let buildId ← optional nativeBuildIdSchema v.buildId
  return { v with detail, siteId, buildId }

variable (unavailable : Schema UnavailableValue)

mutual

/-- `SerializedNodeSchema`, over the reading of unavailable values. -/
def serializedNodeSchema : Schema SerializedNode
  | .str v => some (.str v)
  | .num v => some (.num v)
  | .bool v => some (.bool v)
  | .null => some .null
  | .fn => some .fn
  | .redacted => some .redacted
  | .unavailable v => (unavailable v).map .unavailable
  | .truncated v => some (.truncated v)
  | .obj c m => (serializedRecordSchema c).map fun c => .obj c m
  | .arr c m => (serializedListSchema c).map fun c => .arr c m

/-- `z.record(z.string(), SerializedNodeSchema)` -/
def serializedRecordSchema : Schema (List (JsString × SerializedNode))
  | [] => some []
  | (k, v) :: t => do
    let v ← serializedNodeSchema v
    let t ← serializedRecordSchema t
    return (k, v) :: t

/-- `z.array(SerializedNodeSchema)` -/
def serializedListSchema : Schema (List SerializedNode)
  | [] => some []
  | v :: t => do
    let v ← serializedNodeSchema v
    let t ← serializedListSchema t
    return v :: t

end

end Protocol

/-! ### Events -/

structure StackFrame where
  fn : JsString
  file : JsString
  line : ℕ
  vars : Option SerializedNode

/-- The fields of an event that depend on its type. -/
inductive EventBody
  | snapshot (vars : SerializedNode) (watches : List (JsString × SerializedNode))
      (stack : List StackFrame)
  | log (message : JsString) (level : LogLevel)
  | counter (delta : ℕ)
  | metric (count : ℕ) (sum min max last : ℚ)
  | status (status : ProbeStatusName) (detail : Option JsString)
      (metadata : NativeStatusMetadata)

structure ProbeEvent where
  probeId : JsString
  probeVersion : Option ℕ
  ts : JsString
  body : EventBody

/-- The probe type whose events have this body; a status event fits every type. -/
def EventBody.probeType : EventBody → Option ProbeType
  | .snapshot .. => some .snapshot
  | .log .. => some .log
  | .counter _ => some .counter
  | .metric .. => some .metric
  | .status .. => none

namespace Protocol

section

variable (unavailable : Schema UnavailableValue) (file : Schema JsString)

def stackFrameSchema : Schema StackFrame := fun f => do
  let fn ← text 0 1024 f.fn
  let file ← file f.file
  let line ← positiveInt f.line
  let vars ← optional (serializedNodeSchema unavailable) f.vars
  return { fn, file, line, vars }

def eventBodySchema : Schema EventBody
  | .snapshot vars watches stack => do
    let vars ← serializedNodeSchema unavailable vars
    let watches ← serializedRecordSchema unavailable watches
    let stack ← boundedArray (stackFrameSchema unavailable file) 0 8 stack
    return .snapshot vars watches stack
  | .log message level => do
    let message ← text 0 65536 message
    return .log message level
  | .counter delta => (positiveInt delta).map .counter
  | .metric count sum min max last => do
    let count ← positiveInt count
    if min ≤ max then some (.metric count sum min max last) else none
  | .status status detail metadata => do
    let detail ← optional (text 0 4096) detail
    let metadata ← nativeStatusMetadataSchema metadata
    return .status status detail metadata

end

/-- `ProbeEventSchema` of the broker. -/
def probeEventSchema : Schema ProbeEvent := fun e => do
  let probeId ← probeIdSchema e.probeId
  let probeVersion ← optional positiveInt e.probeVersion
  let ts ← timestampSchema e.ts
  let body ← eventBodySchema unavailableValueSchema (text 0 4096) e.body
  return { probeId, probeVersion, ts, body }

/-- `NativeProbeEventSchema` of the protocol package. -/
def nativeProbeEventSchema : Schema ProbeEvent := fun e => do
  let probeId ← probeIdSchema e.probeId
  let version ← e.probeVersion
  let version ← positiveInt version
  let ts ← timestampSchema e.ts
  let body ← eventBodySchema nativeUnavailableValueSchema sourceFileSchema e.body
  return { probeId, probeVersion := some version, ts, body }

end Protocol

/-! ### Agents and services -/

inductive AgentSdk
  | node | python | jvm
  deriving DecidableEq, Repr

inductive CommitSource
  | env | config
  deriving DecidableEq, Repr

inductive AgentState
  | green | red
  deriving DecidableEq, Repr

/-- `SafetyReasonCodeSchema` -/
inductive SafetyReasonCode
  | eventLoopLag | pauseBudget | rateLimited | instrumentationFailure | agentWorkerFailure
  deriving DecidableEq, Repr

structure SafetyLimits where
  maxProbeHitsPerSecond : Option ℚ := none
  maxProbePauseMsPerSecond : Option ℚ := none
  safetyCooldownMs : Option ℕ := none
  maxTelemetryBytesPerSecond : Option ℚ := none
  maxBufferedEventBytes : Option ℕ := none
  maxEventLoopLagMs : Option ℚ := none
  deriving DecidableEq, Repr

structure AgentStatus where
  state : AgentState
  detail : Option JsString := none
  reasonCode : Option SafetyReasonCode := none
  limits : Option SafetyLimits := none
  deriving DecidableEq, Repr

/-- `IngestInput` -/
structure IngestInput where
  serviceId : JsString
  sdk : AgentSdk
  agentId : Option JsString
  commitSha : JsString
  commitSource : Option CommitSource
  capabilities : Option (List JsString)
  agentStatus : AgentStatus
  events : List ProbeEvent

/-- `NativeCapabilitySchema` -/
def nativeCapabilities : List JsString :=
  [js "uprobe", js "ring-buffer", js "btf", js "dwarf", js "count", js "snapshot-scalar",
   js "log", js "counter", js "metric"]

/-- `NativeAgentRegistration`; `backend` and `architecture` have one value each. -/
structure NativeAgentRegistration where
  agentId : JsString
  hostname : JsString
  capabilities : List JsString
  agentVersion : JsString
  deriving DecidableEq, Repr

inductive NativeLanguage
  | rust | cpp
  deriving DecidableEq, Repr

/-- The fields of a native instance the agent reports. -/
structure NativeInstance where
  instanceId : JsString
  serviceId : JsString
  language : NativeLanguage
  pid : ℕ
  processStartTime : JsString
  executablePath : JsString
  executableDevice : Option JsString
  executableInode : Option JsString
  buildId : JsString
  capabilities : Option (List JsString)
  cgroup : Option JsString
  containerId : Option JsString
  lastSeen : JsString
  deriving DecidableEq, Repr

/-- `NativeIngestEnvelope` -/
structure NativeIngestEnvelope where
  agentId : JsString
  serviceId : JsString
  instanceId : JsString
  buildId : JsString
  agentStatus : AgentStatus
  events : List ProbeEvent

namespace Protocol

def safetyLimitsSchema : Schema SafetyLimits := fun l => do
  let maxProbeHitsPerSecond ← optional nonnegativeNumber l.maxProbeHitsPerSecond
  let maxProbePauseMsPerSecond ← optional nonnegativeNumber l.maxProbePauseMsPerSecond
  let safetyCooldownMs ← optional nonnegativeInt l.safetyCooldownMs
  let maxTelemetryBytesPerSecond ← optional nonnegativeNumber l.maxTelemetryBytesPerSecond
  let maxBufferedEventBytes ← optional positiveInt l.maxBufferedEventBytes
  let maxEventLoopLagMs ← optional (refine fun q : ℚ => 0 < q) l.maxEventLoopLagMs
  return { maxProbeHitsPerSecond, maxProbePauseMsPerSecond, safetyCooldownMs,
           maxTelemetryBytesPerSecond, maxBufferedEventBytes, maxEventLoopLagMs }

/-- `AgentStatusSchema` of the broker. -/
def agentStatusSchema : Schema AgentStatus := fun s => do
  let detail ← optional (text 0 4096) s.detail
  let limits ← optional safetyLimitsSchema s.limits
  if s.state = .green ∧ s.reasonCode ≠ none then none
  else some { s with detail, limits }

/-- `AgentStatusSchema` of the protocol package: state and detail only. -/
def nativeAgentStatusSchema : Schema AgentStatus := fun s => do
  let detail ← optional (text 0 4096) s.detail
  if s.reasonCode = none ∧ s.limits = none then some { s with detail } else none

def agentIdSchema : Schema JsString := trimmed 1 200
def instanceIdSchema : Schema JsString := trimmed 1 300

/-- `IngestSchema` on an input whose defaults are filled in. -/
def ingestSchema : Schema IngestInput := fun i => do
  let serviceId ← serviceIdSchema i.serviceId
  let agentId ← optional agentIdSchema i.agentId
  let commitSha ← sourceCommitSchema i.commitSha
  let capabilities ← boundedArray agentCapabilitySchema 0 32 (i.capabilities.getD [])
  let agentStatus ← agentStatusSchema i.agentStatus
  let events ← boundedArray probeEventSchema 0 10000 i.events
  return { i with
    serviceId, agentId, commitSha, capabilities := some capabilities, agentStatus, events }

/-- `NativeCapabilitySchema` -/
def nativeCapabilitySchema : Schema JsString := refine fun c => c ∈ nativeCapabilities

def nativeAgentRegistrationSchema : Schema NativeAgentRegistration := fun r => do
  let agentId ← agentIdSchema r.agentId
  let hostname ← trimmed 1 255 r.hostname
  let capabilities ← boundedArray nativeCapabilitySchema 1 32 r.capabilities
  let agentVersion ← trimmed 1 100 r.agentVersion
  return { agentId, hostname, capabilities, agentVersion }

/-- `NativeInstanceSchema`, over the schema of its capabilities. -/
def nativeInstanceSchemaWith (capabilities : Schema (Option (List JsString))) :
    Schema NativeInstance := fun i => do
  let instanceId ← instanceIdSchema i.instanceId
  let serviceId ← serviceIdSchema i.serviceId
  let pid ← positiveInt i.pid
  let processStartTime ← trimmed 1 100 i.processStartTime
  let executablePath ←
    refine (fun s : JsString => s.head? = some 0x2F && decide (s.length ≤ 4096)) i.executablePath
  let executableDevice ← optional (trimmed 1 100) i.executableDevice
  let executableInode ←
    optional (refine fun s : JsString => s ≠ [] && s.all isDigit) i.executableInode
  let buildId ← buildIdSchema i.buildId
  let capabilities ← capabilities i.capabilities
  let cgroup ← optional (text 0 4096) i.cgroup
  let containerId ← optional (text 0 256) i.containerId
  let lastSeen ← timestampSchema i.lastSeen
  return { i with
    instanceId, serviceId, pid, processStartTime, executablePath, executableDevice,
    executableInode, buildId, capabilities, cgroup, containerId, lastSeen }

def nativeInstanceSchema : Schema NativeInstance :=
  nativeInstanceSchemaWith (optional (boundedArray nativeCapabilitySchema 1 32))

def nativeInstanceSetSchema : Schema (List NativeInstance) :=
  boundedArray nativeInstanceSchema 0 10000

def nativeIngestEnvelopeSchema : Schema NativeIngestEnvelope := fun i => do
  let agentId ← agentIdSchema i.agentId
  let serviceId ← serviceIdSchema i.serviceId
  let instanceId ← instanceIdSchema i.instanceId
  let buildId ← buildIdSchema i.buildId
  let agentStatus ← nativeAgentStatusSchema i.agentStatus
  let events ← boundedArray nativeProbeEventSchema 0 1000 i.events
  return { agentId, serviceId, instanceId, buildId, agentStatus, events }

end Protocol

/-! ### Schemas keep what they put out -/

namespace Protocol

theorem stable_boundedIdSchema (n : ℕ) : Stable (boundedIdSchema n) := stable_trimmed 1 n
theorem stable_nativeBuildIdSchema : Stable nativeBuildIdSchema := stable_refine _
theorem stable_agentIdSchema : Stable agentIdSchema := stable_trimmed 1 200
theorem stable_instanceIdSchema : Stable instanceIdSchema := stable_trimmed 1 300
theorem stable_nonnegativeNumber : Stable nonnegativeNumber := stable_refine _

theorem stable_resolutionSchema : Stable resolutionSchema := fun a b h => by
  simp only [resolutionSchema, Option.bind_eq_bind, Option.bind_eq_some_iff, Option.pure_def,
    Option.some.injEq] at h
  obtain ⟨_, h₁, _, h₂, _, h₃, _, h₄, rfl⟩ := h
  simp only [resolutionSchema, stable_sourceFileSchema h₁, stable_positiveInt h₂,
    stable_nonnegativeInt h₃, stable_nonnegativeInt h₄, Option.bind_eq_bind, Option.bind_some,
    Option.pure_def]

theorem stable_variableAvailabilitySchema : Stable variableAvailabilitySchema := fun a b h => by
  simp only [variableAvailabilitySchema, Option.bind_eq_bind, Option.bind_eq_some_iff,
    Option.pure_def, Option.some.injEq] at h
  obtain ⟨_, h₁, _, h₂, rfl⟩ := h
  simp only [variableAvailabilitySchema, stable_dotPathSchema h₁,
    (stable_boundedIdSchema 300).boundedArray _ _ h₂, Option.bind_eq_bind, Option.bind_some,
    Option.pure_def]

theorem stable_nativeStatusMetadataSchema : Stable nativeStatusMetadataSchema := fun a b h => by
  simp only [nativeStatusMetadataSchema, Option.bind_eq_bind, Option.bind_eq_some_iff,
    Option.pure_def, Option.some.injEq] at h
  obtain ⟨_, h₁, _, h₂, _, h₃, _, h₄, _, h₅, _, h₆, _, h₇, _, h₈, _, h₉, rfl⟩ := h
  simp only [nativeStatusMetadataSchema, (stable_boundedIdSchema 200).optional h₁,
    (stable_boundedIdSchema 300).optional h₂, stable_nativeBuildIdSchema.optional h₃,
    (stable_boundedIdSchema 300).optional h₄, stable_resolutionSchema.optional h₅,
    (stable_variableAvailabilitySchema.boundedArray _ _).optional h₆,
    stable_nonnegativeInt.optional h₇, stable_nonnegativeNumber.optional h₈,
    stable_nonnegativeInt.optional h₉, Option.bind_eq_bind, Option.bind_some, Option.pure_def]

theorem stable_persistedStatusSchema : Stable persistedStatusSchema := fun a b h => by
  simp only [persistedStatusSchema, Option.bind_eq_bind, Option.bind_eq_some_iff,
    Option.pure_def, Option.some.injEq] at h
  obtain ⟨_, h₁, _, h₂, _, h₃, _, h₄, _, h₅, rfl⟩ := h
  simp only [persistedStatusSchema, stable_nativeStatusMetadataSchema h₁,
    stable_timestampSchema h₂, (stable_text _ _).optional h₃, stable_timestampSchema.optional h₄,
    stable_positiveInt.optional h₅, Option.bind_eq_bind, Option.bind_some, Option.pure_def]

theorem stable_unavailableValueSchema : Stable unavailableValueSchema := fun a b h => by
  simp only [unavailableValueSchema, Option.bind_eq_bind, Option.bind_eq_some_iff,
    Option.pure_def, Option.some.injEq] at h
  obtain ⟨_, h₁, _, h₂, _, h₃, rfl⟩ := h
  simp only [unavailableValueSchema, (stable_text _ _).optional h₁, (stable_text _ _).optional h₂,
    stable_buildIdSchema.optional h₃, Option.bind_eq_bind, Option.bind_some, Option.pure_def]

section

variable {unavailable : Schema UnavailableValue} {file : Schema JsString}

mutual

theorem stable_serializedNodeSchema (hu : Stable unavailable) :
    ∀ a b, serializedNodeSchema unavailable a = some b → serializedNodeSchema unavailable b = some b
  | .str _, _, h | .num _, _, h | .bool _, _, h | .null, _, h | .fn, _, h | .redacted, _, h
  | .truncated _, _, h => by
    obtain rfl := Option.some.inj h
    rfl
  | .unavailable v, b, h => by
    obtain ⟨w, hw, rfl⟩ := Option.map_eq_some_iff.mp h
    simp [serializedNodeSchema, hu hw]
  | .obj c m, b, h => by
    obtain ⟨w, hw, rfl⟩ := Option.map_eq_some_iff.mp h
    simp [serializedNodeSchema, stable_serializedRecordSchema hu c w hw]
  | .arr c m, b, h => by
    obtain ⟨w, hw, rfl⟩ := Option.map_eq_some_iff.mp h
    simp [serializedNodeSchema, stable_serializedListSchema hu c w hw]

theorem stable_serializedRecordSchema (hu : Stable unavailable) :
    ∀ a b, serializedRecordSchema unavailable a = some b →
      serializedRecordSchema unavailable b = some b
  | [], b, h => by
    obtain rfl := Option.some.inj h
    rfl
  | (k, v) :: t, b, h => by
    simp only [serializedRecordSchema, Option.bind_eq_bind, Option.bind_eq_some_iff,
      Option.pure_def, Option.some.injEq] at h
    obtain ⟨w, hw, u, hu', rfl⟩ := h
    simp [serializedRecordSchema, stable_serializedNodeSchema hu v w hw,
      stable_serializedRecordSchema hu t u hu']

theorem stable_serializedListSchema (hu : Stable unavailable) :
    ∀ a b, serializedListSchema unavailable a = some b →
      serializedListSchema unavailable b = some b
  | [], b, h => by
    obtain rfl := Option.some.inj h
    rfl
  | v :: t, b, h => by
    simp only [serializedListSchema, Option.bind_eq_bind, Option.bind_eq_some_iff,
      Option.pure_def, Option.some.injEq] at h
    obtain ⟨w, hw, u, hu', rfl⟩ := h
    simp [serializedListSchema, stable_serializedNodeSchema hu v w hw,
      stable_serializedListSchema hu t u hu']

end

theorem stable_stackFrameSchema (hu : Stable unavailable) (hf : Stable file) :
    Stable (stackFrameSchema unavailable file) := fun a b h => by
  simp only [stackFrameSchema, Option.bind_eq_bind, Option.bind_eq_some_iff,
    Option.pure_def, Option.some.injEq] at h
  obtain ⟨_, h₁, _, h₂, _, h₃, _, h₄, rfl⟩ := h
  have hn : Stable (serializedNodeSchema unavailable) := fun a b => stable_serializedNodeSchema hu a b
  simp only [stackFrameSchema, stable_text _ _ h₁, hf h₂, stable_positiveInt h₃, hn.optional h₄,
    Option.bind_eq_bind, Option.bind_some, Option.pure_def]

theorem stable_eventBodySchema (hu : Stable unavailable) (hf : Stable file) :
    Stable (eventBodySchema unavailable file) := fun a b h => by
  cases a with
  | snapshot vars watches stack =>
    simp only [eventBodySchema, Option.bind_eq_bind, Option.bind_eq_some_iff,
      Option.pure_def, Option.some.injEq] at h
    obtain ⟨_, h₁, _, h₂, _, h₃, rfl⟩ := h
    simp only [eventBodySchema, stable_serializedNodeSchema hu _ _ h₁,
      stable_serializedRecordSchema hu _ _ h₂,
      (stable_stackFrameSchema hu hf).boundedArray _ _ h₃, Option.bind_eq_bind, Option.bind_some,
      Option.pure_def]
  | log message level =>
    simp only [eventBodySchema, Option.bind_eq_bind, Option.bind_eq_some_iff,
      Option.pure_def, Option.some.injEq] at h
    obtain ⟨_, h₁, rfl⟩ := h
    simp only [eventBodySchema, stable_text _ _ h₁, Option.bind_eq_bind, Option.bind_some,
      Option.pure_def]
  | counter delta =>
    obtain ⟨_, h₁, rfl⟩ := Option.map_eq_some_iff.mp h
    simp [eventBodySchema, stable_positiveInt h₁]
  | metric count sum min max last =>
    simp only [eventBodySchema, Option.bind_eq_bind, Option.bind_eq_some_iff] at h
    obtain ⟨_, h₁, h₂⟩ := h
    split at h₂
    · next hle =>
      obtain rfl := Option.some.inj h₂
      simp [eventBodySchema, stable_positiveInt h₁, hle]
    · cases h₂
  | status status detail metadata =>
    simp only [eventBodySchema, Option.bind_eq_bind, Option.bind_eq_some_iff,
      Option.pure_def, Option.some.injEq] at h
    obtain ⟨_, h₁, _, h₂, rfl⟩ := h
    simp only [eventBodySchema, (stable_text _ _).optional h₁,
      stable_nativeStatusMetadataSchema h₂, Option.bind_eq_bind, Option.bind_some, Option.pure_def]

end

theorem stable_probeEventSchema : Stable probeEventSchema := fun a b h => by
  simp only [probeEventSchema, Option.bind_eq_bind, Option.bind_eq_some_iff,
    Option.pure_def, Option.some.injEq] at h
  obtain ⟨_, h₁, _, h₂, _, h₃, _, h₄, rfl⟩ := h
  simp only [probeEventSchema, stable_probeIdSchema h₁, stable_positiveInt.optional h₂,
    stable_timestampSchema h₃,
    stable_eventBodySchema stable_unavailableValueSchema (stable_text _ _) h₄,
    Option.bind_eq_bind, Option.bind_some, Option.pure_def]

theorem stable_safetyLimitsSchema : Stable safetyLimitsSchema := fun a b h => by
  simp only [safetyLimitsSchema, Option.bind_eq_bind, Option.bind_eq_some_iff,
    Option.pure_def, Option.some.injEq] at h
  obtain ⟨_, h₁, _, h₂, _, h₃, _, h₄, _, h₅, _, h₆, rfl⟩ := h
  simp only [safetyLimitsSchema, stable_nonnegativeNumber.optional h₁,
    stable_nonnegativeNumber.optional h₂, stable_nonnegativeInt.optional h₃,
    stable_nonnegativeNumber.optional h₄, stable_positiveInt.optional h₅,
    (stable_refine _).optional h₆, Option.bind_eq_bind, Option.bind_some, Option.pure_def]

theorem stable_agentStatusSchema : Stable agentStatusSchema := fun a b h => by
  simp only [agentStatusSchema, Option.bind_eq_bind, Option.bind_eq_some_iff] at h
  obtain ⟨_, h₁, _, h₂, h₃⟩ := h
  split at h₃
  · cases h₃
  · next hg =>
    obtain rfl := Option.some.inj h₃
    simp only [agentStatusSchema, (stable_text _ _).optional h₁,
      stable_safetyLimitsSchema.optional h₂, Option.bind_eq_bind, Option.bind_some, if_neg hg]

theorem stable_nativeAgentRegistrationSchema : Stable nativeAgentRegistrationSchema :=
  fun a b h => by
  simp only [nativeAgentRegistrationSchema, Option.bind_eq_bind, Option.bind_eq_some_iff,
    Option.pure_def, Option.some.injEq] at h
  obtain ⟨_, h₁, _, h₂, _, h₃, _, h₄, rfl⟩ := h
  simp only [nativeAgentRegistrationSchema, stable_agentIdSchema h₁, stable_trimmed _ _ h₂,
    (stable_refine _).boundedArray _ _ h₃, nativeCapabilitySchema, stable_trimmed _ _ h₄,
    Option.bind_eq_bind, Option.bind_some, Option.pure_def]

theorem stable_nativeInstanceSchemaWith {capabilities : Schema (Option (List JsString))}
    (hc : Stable capabilities) : Stable (nativeInstanceSchemaWith capabilities) := fun a b h => by
  obtain ⟨_, h₁, h⟩ := Option.bind_eq_some_iff.mp h
  obtain ⟨_, h₂, h⟩ := Option.bind_eq_some_iff.mp h
  obtain ⟨_, h₃, h⟩ := Option.bind_eq_some_iff.mp h
  obtain ⟨_, h₄, h⟩ := Option.bind_eq_some_iff.mp h
  obtain ⟨_, h₅, h⟩ := Option.bind_eq_some_iff.mp h
  obtain ⟨_, h₆, h⟩ := Option.bind_eq_some_iff.mp h
  obtain ⟨_, h₇, h⟩ := Option.bind_eq_some_iff.mp h
  obtain ⟨_, h₈, h⟩ := Option.bind_eq_some_iff.mp h
  obtain ⟨_, h₉, h⟩ := Option.bind_eq_some_iff.mp h
  obtain ⟨_, h₁₀, h⟩ := Option.bind_eq_some_iff.mp h
  obtain ⟨_, h₁₁, h⟩ := Option.bind_eq_some_iff.mp h
  obtain ⟨_, h₁₂, h⟩ := Option.bind_eq_some_iff.mp h
  cases h
  simp only [nativeInstanceSchemaWith, stable_instanceIdSchema h₁, stable_serviceIdSchema h₂,
    stable_positiveInt h₃, stable_trimmed _ _ h₄, stable_refine _ h₅,
    (stable_trimmed _ _).optional h₆, (stable_refine _).optional h₇, stable_buildIdSchema h₈,
    hc h₉, (stable_text _ _).optional h₁₀, (stable_text _ _).optional h₁₁,
    stable_timestampSchema h₁₂, Option.bind_eq_bind, Option.bind_some, Option.pure_def]

/-! ### What passes unchanged -/

theorem probeEventSchema_self {e : ProbeEvent} :
    probeEventSchema e = some e ↔
      probeIdSchema e.probeId = some e.probeId ∧
        optional positiveInt e.probeVersion = some e.probeVersion ∧
        timestampSchema e.ts = some e.ts ∧
        eventBodySchema unavailableValueSchema (text 0 4096) e.body = some e.body := by
  obtain ⟨id, version, ts, body⟩ := e
  simp only [probeEventSchema, Option.bind_eq_bind, Option.bind_eq_some_iff, Option.pure_def,
    Option.some.injEq, ProbeEvent.mk.injEq]
  constructor
  · rintro ⟨_, h₁, _, h₂, _, h₃, _, h₄, rfl, rfl, rfl, rfl⟩
    exact ⟨h₁, h₂, h₃, h₄⟩
  · rintro ⟨h₁, h₂, h₃, h₄⟩
    exact ⟨_, h₁, _, h₂, _, h₃, _, h₄, rfl, rfl, rfl, rfl⟩

theorem nativeProbeEventSchema_self {e : ProbeEvent} :
    nativeProbeEventSchema e = some e ↔
      probeIdSchema e.probeId = some e.probeId ∧
        (∃ version, e.probeVersion = some version ∧ positiveInt version = some version) ∧
        timestampSchema e.ts = some e.ts ∧
        eventBodySchema nativeUnavailableValueSchema sourceFileSchema e.body = some e.body := by
  obtain ⟨id, version, ts, body⟩ := e
  simp only [nativeProbeEventSchema, Option.bind_eq_bind, Option.bind_eq_some_iff,
    Option.pure_def, Option.some.injEq, ProbeEvent.mk.injEq]
  constructor
  · rintro ⟨_, h₁, _, rfl, _, h₂, _, h₃, _, h₄, rfl, hv, rfl, rfl⟩
    obtain rfl := Option.some.inj hv
    exact ⟨h₁, ⟨_, rfl, h₂⟩, h₃, h₄⟩
  · rintro ⟨h₁, ⟨v, rfl, h₂⟩, h₃, h₄⟩
    exact ⟨_, h₁, _, rfl, _, h₂, _, h₃, _, h₄, rfl, rfl, rfl, rfl⟩

/-- The detail and the metadata of a status event that passes either schema. -/
theorem eventBodySchema_status_self {unavailable : Schema UnavailableValue}
    {file : Schema JsString} {status : ProbeStatusName} {detail : Option JsString}
    {metadata : NativeStatusMetadata} :
    eventBodySchema unavailable file (.status status detail metadata) =
        some (.status status detail metadata) ↔
      optional (text 0 4096) detail = some detail ∧
        nativeStatusMetadataSchema metadata = some metadata := by
  simp only [eventBodySchema, Option.bind_eq_bind, Option.bind_eq_some_iff, Option.pure_def,
    Option.some.injEq, EventBody.status.injEq, true_and]
  constructor
  · rintro ⟨_, h₁, _, h₂, rfl, rfl⟩
    exact ⟨h₁, h₂⟩
  · rintro ⟨h₁, h₂⟩
    exact ⟨_, h₁, _, h₂, rfl, rfl⟩

/-- The parts of an ingest input that passes its schema unchanged. -/
structure IngestParts (i : IngestInput) : Prop where
  serviceId : serviceIdSchema i.serviceId = some i.serviceId
  agentId : optional agentIdSchema i.agentId = some i.agentId
  commitSha : sourceCommitSchema i.commitSha = some i.commitSha
  capabilities : boundedArray agentCapabilitySchema 0 32 (i.capabilities.getD []) =
    some (i.capabilities.getD [])
  agentStatus : agentStatusSchema i.agentStatus = some i.agentStatus
  events : ∀ e ∈ i.events, probeEventSchema e = some e

theorem ingestSchema_self {i : IngestInput} (h : ingestSchema i = some i) : IngestParts i := by
  obtain ⟨serviceId, sdk, agentId, commitSha, commitSource, capabilities, agentStatus, events⟩ := i
  simp only [ingestSchema, Option.bind_eq_bind, Option.bind_eq_some_iff, Option.pure_def,
    Option.some.injEq, IngestInput.mk.injEq] at h
  obtain ⟨_, h₁, _, h₂, _, h₃, c, h₄, _, h₅, _, h₆, rfl, -, rfl, rfl, -, rfl, rfl, rfl⟩ := h
  exact ⟨h₁, h₂, h₃, h₄, h₅, (boundedArray_self.mp h₆).1⟩

/-- The parts of a native envelope that passes its schema unchanged. -/
structure EnvelopeParts (i : NativeIngestEnvelope) : Prop where
  agentId : agentIdSchema i.agentId = some i.agentId
  serviceId : serviceIdSchema i.serviceId = some i.serviceId
  instanceId : instanceIdSchema i.instanceId = some i.instanceId
  buildId : buildIdSchema i.buildId = some i.buildId
  agentStatus : nativeAgentStatusSchema i.agentStatus = some i.agentStatus
  events : ∀ e ∈ i.events, nativeProbeEventSchema e = some e

theorem nativeIngestEnvelopeSchema_self {i : NativeIngestEnvelope}
    (h : nativeIngestEnvelopeSchema i = some i) : EnvelopeParts i := by
  obtain ⟨agentId, serviceId, instanceId, buildId, agentStatus, events⟩ := i
  simp only [nativeIngestEnvelopeSchema, Option.bind_eq_bind, Option.bind_eq_some_iff,
    Option.pure_def, Option.some.injEq, NativeIngestEnvelope.mk.injEq] at h
  obtain ⟨_, h₁, _, h₂, _, h₃, _, h₄, _, h₅, _, h₆, rfl, rfl, rfl, rfl, rfl, rfl⟩ := h
  exact ⟨h₁, h₂, h₃, h₄, h₅, (boundedArray_self.mp h₆).1⟩

/-- The parts of a native instance that passes its schema unchanged. -/
structure InstanceParts (i : NativeInstance) : Prop where
  instanceId : instanceIdSchema i.instanceId = some i.instanceId
  serviceId : serviceIdSchema i.serviceId = some i.serviceId
  pid : positiveInt i.pid = some i.pid
  processStartTime : trimmed 1 100 i.processStartTime = some i.processStartTime
  executablePath : refine (fun s : JsString => s.head? = some 0x2F && decide (s.length ≤ 4096))
    i.executablePath = some i.executablePath
  executableDevice : optional (trimmed 1 100) i.executableDevice = some i.executableDevice
  executableInode : optional (refine fun s : JsString => s ≠ [] && s.all isDigit)
    i.executableInode = some i.executableInode
  buildId : buildIdSchema i.buildId = some i.buildId
  cgroup : optional (text 0 4096) i.cgroup = some i.cgroup
  containerId : optional (text 0 256) i.containerId = some i.containerId
  lastSeen : timestampSchema i.lastSeen = some i.lastSeen

theorem nativeInstanceSchemaWith_self {capabilities : Schema (Option (List JsString))}
    {i : NativeInstance} :
    nativeInstanceSchemaWith capabilities i = some i ↔
      InstanceParts i ∧ capabilities i.capabilities = some i.capabilities := by
  constructor
  · intro h
    obtain ⟨_, h₁, h⟩ := Option.bind_eq_some_iff.mp h
    obtain ⟨_, h₂, h⟩ := Option.bind_eq_some_iff.mp h
    obtain ⟨_, h₃, h⟩ := Option.bind_eq_some_iff.mp h
    obtain ⟨_, h₄, h⟩ := Option.bind_eq_some_iff.mp h
    obtain ⟨_, h₅, h⟩ := Option.bind_eq_some_iff.mp h
    obtain ⟨_, h₆, h⟩ := Option.bind_eq_some_iff.mp h
    obtain ⟨_, h₇, h⟩ := Option.bind_eq_some_iff.mp h
    obtain ⟨_, h₈, h⟩ := Option.bind_eq_some_iff.mp h
    obtain ⟨_, h₉, h⟩ := Option.bind_eq_some_iff.mp h
    obtain ⟨_, h₁₀, h⟩ := Option.bind_eq_some_iff.mp h
    obtain ⟨_, h₁₁, h⟩ := Option.bind_eq_some_iff.mp h
    obtain ⟨_, h₁₂, h⟩ := Option.bind_eq_some_iff.mp h
    obtain ⟨instanceId, serviceId, language, pid, start, path, device, inode, buildId, caps, cgroup,
      containerId, lastSeen⟩ := i
    cases h
    exact ⟨⟨h₁, h₂, h₃, h₄, h₅, h₆, h₇, h₈, h₁₀, h₁₁, h₁₂⟩, h₉⟩
  · rintro ⟨h, hc⟩
    simp only [nativeInstanceSchemaWith, h.instanceId, h.serviceId, h.pid, h.processStartTime,
      h.executablePath, h.executableDevice, h.executableInode, h.buildId, hc, h.cgroup,
      h.containerId, h.lastSeen, Option.bind_eq_bind, Option.bind_some, Option.pure_def]

/-- A status a native agent reports of itself is one the broker's schema takes. -/
theorem agentStatusSchema_of_native {a : AgentStatus} (h : nativeAgentStatusSchema a = some a) :
    agentStatusSchema a = some a := by
  obtain ⟨state, detail, reasonCode, limits⟩ := a
  simp only [nativeAgentStatusSchema, Option.bind_eq_bind, Option.bind_eq_some_iff] at h
  obtain ⟨d, hd, h⟩ := h
  split at h
  · next hn =>
    obtain ⟨rfl, rfl⟩ : reasonCode = none ∧ limits = none := hn
    obtain rfl : d = detail := congrArg AgentStatus.detail (Option.some.inj h)
    have hl : optional safetyLimitsSchema none = some none := rfl
    simp only [agentStatusSchema, hd, hl, Option.bind_eq_bind, Option.bind_some]
    simp
  · cases h

end Protocol
