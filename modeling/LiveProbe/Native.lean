/-
LiveProbe/Native.lean

The native agents: registration, the instances an agent reports, the probes it
is assigned and the events it delivers.

An agent polls for its assignments with the version it holds, so everything
that changes what it is assigned has to raise its assignment version: a change
of its instances, a change of a service's probes (`incrementServiceVersion`)
and the first terminal status of a probe on one of its instances.
-/
import LiveProbe.Ingest

open JsString

namespace Broker

/-! ### Schemas of the stored records -/

/-- `persistedNativeAgentSchema` -/
def persistedNativeAgentSchema : Schema NativeAgentRecord := fun a => do
  let registration ← Protocol.nativeAgentRegistrationSchema a.toNativeAgentRegistration
  let scope ← Protocol.resourceScopeSchema a.scope
  let lastSeen ← Protocol.timestampSchema a.lastSeen
  return { toNativeAgentRegistration := registration, scope, lastSeen }

/-- `persistedNativeInstanceSchema`; its capabilities are any strings. -/
def persistedNativeInstanceSchema : Schema NativeInstanceRecord := fun i => do
  let inst ← Protocol.nativeInstanceSchemaWith (fun c => some (some (c.getD []))) i.toNativeInstance
  let scope ← Protocol.resourceScopeSchema i.scope
  let agentId ← Protocol.agentIdSchema i.agentId
  return { toNativeInstance := inst, scope, agentId }

theorem stable_persistedNativeAgentSchema : Schema.Stable persistedNativeAgentSchema :=
  fun a b h => by
  simp only [persistedNativeAgentSchema, Option.bind_eq_bind, Option.bind_eq_some_iff,
    Option.pure_def, Option.some.injEq] at h
  obtain ⟨_, h₁, _, h₂, _, h₃, rfl⟩ := h
  simp only [persistedNativeAgentSchema, Protocol.stable_nativeAgentRegistrationSchema h₁,
    Protocol.stable_resourceScopeSchema h₂, Protocol.stable_timestampSchema h₃,
    Option.bind_eq_bind, Option.bind_some, Option.pure_def]

theorem stable_persistedNativeInstanceSchema : Schema.Stable persistedNativeInstanceSchema :=
  fun a b h => by
  simp only [persistedNativeInstanceSchema, Option.bind_eq_bind, Option.bind_eq_some_iff,
    Option.pure_def, Option.some.injEq] at h
  obtain ⟨_, h₁, _, h₂, _, h₃, rfl⟩ := h
  have hc : Schema.Stable fun c : Option (List JsString) => some (some (c.getD [])) :=
    fun _ _ h => by obtain rfl := Option.some.inj h; rfl
  simp only [persistedNativeInstanceSchema, Protocol.stable_nativeInstanceSchemaWith hc h₁,
    Protocol.stable_resourceScopeSchema h₂, Protocol.stable_agentIdSchema h₃,
    Option.bind_eq_bind, Option.bind_some, Option.pure_def]

/-! ### Attachment identity -/

/-- What `nativeAttachmentIdentity` writes as JSON; language and the single
architecture included, `lastSeen` left out. -/
structure AttachmentIdentity where
  instanceId : JsString
  serviceId : JsString
  language : NativeLanguage
  pid : ℕ
  processStartTime : JsString
  executablePath : JsString
  executableDevice : Option JsString
  executableInode : Option JsString
  buildId : JsString
  capabilities : List JsString
  cgroup : Option JsString
  containerId : Option JsString
  deriving DecidableEq, Repr

/-- `nativeAttachmentIdentity` -/
def nativeAttachmentIdentity (i : NativeInstance) (fallbackCapabilities : List JsString) :
    AttachmentIdentity :=
  { i with capabilities := sortStrings (i.capabilities.getD fallbackCapabilities) }

def notFound : BrokerError :=
  .http 404 (js "native_agent_not_found") (js "native agent is not registered")

/-- Whether a credential's services include one. -/
def allows (allowedServiceIds : List JsString) (serviceId : JsString) : Bool :=
  js "*" ∈ allowedServiceIds || serviceId ∈ allowedServiceIds

/-- The first loop of `replaceNativeInstances`; `ids` are those already seen. -/
def checkInstances (owned : JsString → Bool) (allowedServiceIds : List JsString) :
    List JsString → List NativeInstance → Except BrokerError Unit
  | _, [] => .ok ()
  | ids, i :: rest =>
    if !allows allowedServiceIds i.serviceId then
      .error (.http 403 (js "forbidden") (js "service " ++ i.serviceId ++ js " is not allowed"))
    else if i.instanceId ∈ ids then
      .error (invalidRequest (js "duplicate native instance"))
    else if owned i.instanceId then
      .error (.http 409 (js "native_instance_owned") (js "native instance has another owner"))
    else checkInstances owned allowedServiceIds (i.instanceId :: ids) rest

end Broker

namespace BrokerState

open Broker

/-! ### Registration -/

def registerNativeAgent (now : ℕ) (input : NativeAgentRegistration) (scope : ResourceScope)
    (s : BrokerState) : BrokerState × Except BrokerError NativeAgentRecord :=
  match persistedNativeAgentSchema
      { toNativeAgentRegistration := input, scope, lastSeen := IsoDate.toISOString now } with
  | none => (s, .error .invalid)
  | some record =>
    let key := nativeAgentKey scope input.agentId
    ({ s with
       nativeAgents := s.nativeAgents.set key record
       nativeAssignmentVersions :=
        if s.nativeAssignmentVersions.has key then s.nativeAssignmentVersions
        else s.nativeAssignmentVersions.set key 0 }, .ok record)

/-! ### Instances -/

/-- The instances an agent holds. -/
def agentInstances (s : BrokerState) (scope : ResourceScope) (agentId : JsString) :
    List NativeInstanceRecord :=
  s.nativeInstances.values.filter fun i => i.scope = scope && i.agentId = agentId

/-- Whether another agent of the scope holds an instance of this identifier. -/
def ownedByAnother (s : BrokerState) (scope : ResourceScope) (agentId instanceId : JsString) :
    Bool :=
  s.nativeInstances.values.any fun i =>
    i.scope = scope && i.instanceId = instanceId && i.agentId ≠ agentId

/-- The loop that drops the agent's instances that are no longer reported. -/
def dropInstances (scope : ResourceScope) (agentId : JsString) (ids : List JsString)
    (s : BrokerState) : BrokerState :=
  { s with
    nativeInstances := s.nativeInstances.filter fun _ i =>
      !(i.scope = scope && i.agentId = agentId && i.instanceId ∉ ids) }

/-- The record an instance is stored as, before its schema. -/
def instanceRecord (scope : ResourceScope) (agent : NativeAgentRecord) (agentId : JsString)
    (i : NativeInstance) : NativeInstanceRecord :=
  { toNativeInstance := { i with capabilities := some (i.capabilities.getD agent.capabilities) }
    scope, agentId }

/-- The loop that stores the reported instances. -/
def setInstances (scope : ResourceScope) (agent : NativeAgentRecord) (agentId : JsString) :
    List NativeInstance → BrokerState → BrokerState × Except BrokerError Unit
  | [], s => (s, .ok ())
  | i :: rest, s =>
    match persistedNativeInstanceSchema (instanceRecord scope agent agentId i) with
    | none => (s, .error .invalid)
    | some record =>
      setInstances scope agent agentId rest
        { s with
          nativeInstances :=
            s.nativeInstances.set (nativeInstanceKey scope agentId i.instanceId) record }

/-- The instances of a scope by service, services in order of appearance. -/
def groupByService (instances : List NativeInstanceRecord) :
    JsMap JsString (List NativeInstanceRecord) :=
  instances.foldl (fun grouped i =>
    grouped.set i.serviceId ((grouped.get? i.serviceId).getD [] ++ [i])) ∅

/-- The capabilities all instances have, sorted. -/
def commonCapabilities (instances : List NativeInstanceRecord) : List JsString :=
  match instances with
  | [] => []
  | first :: _ =>
    sortStrings ((first.capabilities.getD []).eraseDups.filter fun c =>
      instances.all fun i => c ∈ i.capabilities.getD [])

/-- The instance seen last; of several the first. -/
def latestInstance : List NativeInstanceRecord → Option NativeInstanceRecord
  | [] => none
  | i :: rest => some (rest.foldl (fun l r => if dateGe l.lastSeen r.lastSeen then l else r) i)

def nativeLimitations : List JsString :=
  [js "Linux x86-64 only",
   js "bounded scalar, C-string, and fixed-field DWARF capture only",
   js "no floating-register, STL, deep traversal, or suspended-future capture"]

/-- The service record of a group of native instances. -/
def nativeServiceRecord (scope : ResourceScope) (serviceId : JsString)
    (instances : List NativeInstanceRecord) : Option ServiceRecord :=
  (latestInstance instances).map fun latest =>
    { scope, serviceId, backend := some .nativeEbpf
      language := some (match latest.language with | .rust => .rust | .cpp => .cpp)
      lastSeen := latest.lastSeen
      capabilities := some (commonCapabilities instances)
      instanceCount := some instances.length
      buildIds := some (sortStrings (instances.map (·.buildId)).eraseDups)
      nativeLimitations := some nativeLimitations }

/-- `rebuildNativeServices` -/
def rebuildNativeServices (scope : ResourceScope) (s : BrokerState) : BrokerState :=
  let grouped := groupByService (s.nativeInstances.values.filter fun i => i.scope = scope)
  let kept := s.services.filter fun _ service =>
    !(service.scope = scope && service.backend = some .nativeEbpf &&
      !grouped.has service.serviceId)
  { s with
    services := grouped.entries.foldl (fun services e =>
      match nativeServiceRecord scope e.1 e.2 with
      | none => services
      | some record => services.set (serviceKey scope e.1) record) kept }

/-- The last part of `replaceNativeInstances`. -/
def settleInstances (now : ℕ) (scope : ResourceScope) (agent : NativeAgentRecord)
    (agentId : JsString) (changed : Bool) (s : BrokerState) : BrokerState :=
  let s :=
    { s with
      nativeAgents := s.nativeAgents.set (nativeAgentKey scope agentId)
        { agent with lastSeen := IsoDate.toISOString now }
      nativeAssignmentVersions :=
        if changed then bumpNativeAssignmentVersion scope s.nativeAssignmentVersions agentId
        else s.nativeAssignmentVersions }
  s.rebuildNativeServices scope

def replaceNativeInstances (now : ℕ) (agentId : JsString) (instances : List NativeInstance)
    (scope : ResourceScope) (allowedServiceIds : List JsString) (s : BrokerState) :
    BrokerState × Except BrokerError ℕ :=
  match s.nativeAgents.get? (nativeAgentKey scope agentId) with
  | none => (s, .error notFound)
  | some agent =>
    match checkInstances (s.ownedByAnother scope agentId) allowedServiceIds [] instances with
    | .error e => (s, .error e)
    | .ok () =>
      let previous := (s.agentInstances scope agentId).map
        fun i => nativeAttachmentIdentity i.toNativeInstance []
      let next := instances.map fun i => nativeAttachmentIdentity i agent.capabilities
      let s := s.dropInstances scope agentId (instances.map (·.instanceId))
      match s.setInstances scope agent agentId instances with
      | (s, .error e) => (s, .error e)
      | (s, .ok ()) =>
        (s.settleInstances now scope agent agentId (!previous.isPerm next), .ok instances.length)

/-! ### Assignments -/

/-- `nativeTerminal` -/
def nativeTerminal (s : BrokerState) (probe : ProbeDefinition) (i : NativeInstanceRecord)
    (agentId : JsString) (scope : ResourceScope) : Bool :=
  (s.nativeStatuses.get?
    (nativeStatusKey scope probe.id probe.version agentId i.instanceId i.buildId)).any
    fun status => nativeStatusEndsAssignment status.status

end BrokerState

structure NativeAssignment where
  instanceId : JsString
  serviceId : JsString
  buildId : JsString
  probes : List ProbeDefinition
  deriving DecidableEq, Repr

structure NativeAssignments where
  version : ℕ
  assignments : List NativeAssignment
  deriving DecidableEq, Repr

namespace BrokerState

open Broker

/-- The version of an agent's assignments. -/
def assignmentVersion (s : BrokerState) (scope : ResourceScope) (agentId : JsString) : ℕ :=
  (s.nativeAssignmentVersions.get? (nativeAgentKey scope agentId)).getD 0

/-- The assignment of one instance. -/
def instanceAssignment (s : BrokerState) (scope : ResourceScope) (agentId : JsString)
    (i : NativeInstanceRecord) : NativeAssignment :=
  { instanceId := i.instanceId, serviceId := i.serviceId, buildId := i.buildId
    probes := (s.activeProbes scope i.serviceId).filter fun probe =>
      !s.nativeTerminal probe i agentId scope }

/-- The assignments of an agent, by instance. -/
def desiredAssignments (cfg : Config) (scope : ResourceScope) (agentId : JsString)
    (allowedServiceIds : List JsString) (s : BrokerState) : List NativeAssignment :=
  (((s.agentInstances scope agentId).filter fun i => allows allowedServiceIds i.serviceId).mergeSort
    fun l r => cfg.localeLe l.instanceId r.instanceId).map (s.instanceAssignment scope agentId)

def nativeAssignments (cfg : Config) (now : ℕ) (agentId : JsString) (since : ℤ)
    (scope : ResourceScope) (allowedServiceIds : List JsString) (s : BrokerState) :
    BrokerState × Except BrokerError NativeAssignments :=
  if s.nativeAgents.has (nativeAgentKey scope agentId) then
    let s := s.expireDueProbes cfg now
    let version := s.assignmentVersion scope agentId
    (s, .ok
      { version
        assignments := if since = version then []
          else s.desiredAssignments cfg scope agentId allowedServiceIds })
  else (s, .error notFound)

/-! ### Native ingest -/

/-- The health record of a service, created on first use. -/
def healthOf (s : BrokerState) (scope : ResourceScope) (serviceId : JsString) :
    NativeIngestHealth :=
  (s.nativeIngestHealth.get? (serviceKey scope serviceId)).getD
    { staleEventsDropped := 0, rejectedBatches := 0 }

/-- Change the health record of a service. -/
def recordHealth (scope : ResourceScope) (serviceId : JsString)
    (f : NativeIngestHealth → NativeIngestHealth) (s : BrokerState) : BrokerState :=
  { s with
    nativeIngestHealth :=
      s.nativeIngestHealth.set (serviceKey scope serviceId) (f (s.healthOf scope serviceId)) }

def instanceChanged (message : JsString) : BrokerError :=
  .http 409 (js "target-instance-changed") message

/-- Whether a status event names the instance its envelope is from. -/
def namesInstance (input : NativeIngestEnvelope) : EventBody → Bool
  | .status _ _ m =>
    m.agentId = some input.agentId && m.instanceId = some input.instanceId &&
      m.buildId = some input.buildId
  | _ => true

/-- The check of one native event against a probe that exists. -/
def checkNativeEvent (input : NativeIngestEnvelope) (scope : ResourceScope) (stored : StoredProbe)
    (event : ProbeEvent) : Except BrokerError Unit :=
  if stored.scope ≠ scope ∨ stored.probe.serviceId ≠ input.serviceId ∨
      !matchesType event stored.probe then
    .error (invalidRequest (js "native event does not match its logical probe"))
  else if event.probeVersion ≠ some stored.probe.version then
    .error (.http 409 (js "probe_version_changed")
      (js "native event probe version does not match the logical probe"))
  else if !namesInstance input event.body then
    .error (instanceChanged (js "native status identity mismatch"))
  else .ok ()

/-- The first loop of `ingestNativeChecked`: the events to store.  Those of
probes removed a short while ago are left out. -/
def acceptNativeEvents (input : NativeIngestEnvelope) (scope : ResourceScope) (s : BrokerState) :
    List ProbeEvent → Except BrokerError (List ProbeEvent)
  | [] => .ok []
  | event :: rest =>
    match s.probes.get? event.probeId with
    | none =>
      if s.recentlyRemovedProbes.has event.probeId then acceptNativeEvents input scope s rest
      else .error (invalidRequest (js "native event does not match its logical probe"))
    | some stored =>
      match checkNativeEvent input scope stored event with
      | .error e => .error e
      | .ok () => (acceptNativeEvents input scope s rest).map (event :: ·)

/-- The status an event of a native envelope carries, as it is stored. -/
def nativeStatusOf (event : ProbeEvent) : Option ProbeStatus :=
  match event.body with
  | .status status detail metadata =>
    some { toNativeStatusMetadata := metadata, status, updatedAt := event.ts, detail
           probeVersion := event.probeVersion }
  | _ => none

/-- Whether a recorded status outlasts a new one: it is newer, or it ends the
assignment and the new one does not. -/
def keepsPrevious (status : ProbeStatus) (previous : ProbeStatus) : Bool :=
  dateLt status.updatedAt previous.updatedAt ||
    (nativeStatusEndsAssignment previous.status && !nativeStatusEndsAssignment status.status)

/-- The statuses the instances of a probe's service have for it. -/
def instanceStatuses (s : BrokerState) (scope : ResourceScope) (stored : StoredProbe)
    (probeId : JsString) : List (Option ProbeStatus) :=
  (s.nativeInstances.values.filter fun i =>
      i.scope = scope && i.serviceId = stored.probe.serviceId).map fun i =>
    s.nativeStatuses.get?
      (nativeStatusKey scope probeId stored.probe.version i.agentId i.instanceId i.buildId)

/-- `sort` by date, latest first, and then `[0]` -/
def latestStatus (statuses : List ProbeStatus) : Option ProbeStatus :=
  (statuses.mergeSort fun l r => !dateLt l.updatedAt r.updatedAt).head?

/-- `deriveNativeArmedAt` -/
def deriveNativeArmedAt (s : BrokerState) (probeId : JsString) (statuses : List ProbeStatus) :
    Option JsString :=
  match (s.statuses.get? probeId).bind (·.armedAt) with
  | some armedAt => some armedAt
  | none =>
    (statuses.filter fun status => status.status = .armed).foldl (fun earliest status =>
      match earliest with
      | none => some status.updatedAt
      | some e => if dateLt status.updatedAt e then some status.updatedAt else some e) none

/-- The logical status `deriveNativeLogicalStatus` settles on, if any. -/
def derivedStatus (s : BrokerState) (scope : ResourceScope) (stored : StoredProbe)
    (probeId : JsString) : Option ProbeStatus :=
  let statuses := s.instanceStatuses scope stored probeId
  let defined := statuses.filterMap id
  let armed := defined.filter fun status => status.status = .armed
  let chosen :=
    if statuses.any (·.isNone) || armed ≠ [] then latestStatus armed else latestStatus defined
  chosen.map fun status =>
    match s.deriveNativeArmedAt probeId defined with
    | none => status
    | some armedAt => { status with armedAt := some armedAt }

/-- `deriveNativeLogicalStatus` -/
def deriveNativeLogicalStatus (probeId : JsString) (scope : ResourceScope) (s : BrokerState) :
    BrokerState :=
  match s.ownProbe probeId scope with
  | none => s
  | some stored =>
    if stored.expired then s
    else
      match s.derivedStatus scope stored probeId with
      | none => s
      | some status => { s with statuses := s.statuses.set probeId status }

/-- A native status is recorded, unless the recorded one outlasts it. -/
def recordNativeStatus (scope : ResourceScope) (input : NativeIngestEnvelope) (event : ProbeEvent)
    (status : ProbeStatus) (s : BrokerState) : BrokerState :=
  let key := nativeStatusKey scope event.probeId (event.probeVersion.getD 0) input.agentId
    input.instanceId input.buildId
  let previous := s.nativeStatuses.get? key
  if previous.any (keepsPrevious status) then s
  else
    let latches := nativeStatusEndsAssignment status.status &&
      !(previous.any fun p => nativeStatusEndsAssignment p.status)
    let s :=
      { s with
        nativeStatuses := s.nativeStatuses.set key status
        nativeAssignmentVersions :=
          if latches then bumpNativeAssignmentVersion scope s.nativeAssignmentVersions input.agentId
          else s.nativeAssignmentVersions }
    s.deriveNativeLogicalStatus event.probeId scope

/-- The body of the second loop of `ingestNativeChecked`. -/
def ingestNativeEvent (cfg : Config) (scope : ResourceScope) (input : NativeIngestEnvelope)
    (s : BrokerState) (event : ProbeEvent) : BrokerState :=
  let s := s.appendEvent cfg event
  match nativeStatusOf event with
  | none => s
  | some status => s.recordNativeStatus scope input event status

/-- The service record after a batch. -/
def touchNativeService (now : ℕ) (scope : ResourceScope) (input : NativeIngestEnvelope)
    (s : BrokerState) : BrokerState :=
  match s.services.get? (serviceKey scope input.serviceId) with
  | none => s
  | some service =>
    { s with
      services := s.services.set (serviceKey scope input.serviceId)
        { service with
          lastSeen := IsoDate.toISOString now, agentStatus := some input.agentStatus } }

/-- Whether an instance is the one an envelope claims to be from. -/
def isTarget (input : NativeIngestEnvelope) (i : NativeInstanceRecord) : Bool :=
  i.serviceId = input.serviceId && i.buildId = input.buildId

def ingestNativeChecked (cfg : Config) (now : ℕ) (input : NativeIngestEnvelope)
    (scope : ResourceScope) (s : BrokerState) : BrokerState × Except BrokerError ℕ :=
  if (s.nativeInstances.get? (nativeInstanceKey scope input.agentId input.instanceId)).any
      (isTarget input) then
    let s := s.pruneRemovedProbes now
    match s.acceptNativeEvents input scope input.events with
    | .error e => (s, .error e)
    | .ok accepted =>
      let skipped := input.events.length - accepted.length
      let s := if skipped = 0 then s
        else s.recordHealth scope input.serviceId fun h =>
          { h with staleEventsDropped := h.staleEventsDropped + skipped }
      let s := accepted.foldl (ingestNativeEvent cfg scope input) s
      (s.touchNativeService now scope input, .ok accepted.length)
  else (s, .error (instanceChanged (js "native instance identity changed")))

/-- `ingestNative`: rejections are counted. -/
def ingestNative (cfg : Config) (now : ℕ) (input : NativeIngestEnvelope) (scope : ResourceScope)
    (s : BrokerState) : BrokerState × Except BrokerError ℕ :=
  match s.ingestNativeChecked cfg now input scope with
  | (s, .error (.http statusCode code message)) =>
    (s.recordHealth scope input.serviceId fun h =>
      { h with
        rejectedBatches := h.rejectedBatches + 1
        lastRejectionAt := some (IsoDate.toISOString now)
        lastRejectionCode := some code }, .error (.http statusCode code message))
  | r => r

/-! ### Services -/

/-- The services of a scope, in the order of the map. -/
def scopeServices (s : BrokerState) (scope : ResourceScope) : List ServiceRecord :=
  s.services.values.filter fun service => service.scope = scope

/-- A service record as `listServices` shows it. -/
def publicService (r : ServiceRecord) : ServiceRecord :=
  { r with
    backend := some (r.backend.getD .managedRuntime)
    language := match r.language with
      | some language => some language
      | none => r.sdk.map fun sdk =>
        match sdk with
        | .node => .node
        | .python => .python
        | .jvm => .jvm
    instanceCount := some (r.instanceCount.getD 1) }

def listServices (cfg : Config) (now : ℕ) (scope : ResourceScope) (s : BrokerState) :
    BrokerState × List ServiceRecord :=
  let s := (s.scopeServices scope).foldl
    (fun s service => s.refreshServiceCapabilities now scope service.serviceId) s
  (s, ((s.scopeServices scope).map publicService).mergeSort
    fun l r => cfg.localeLe l.serviceId r.serviceId)

end BrokerState
