/-
LiveProbe/Snapshot.lean

`BrokerState.snapshot` and `loadSnapshot`.  A snapshot lists the values of the
maps, read by `snapshotSchema`; loading one clears the maps, refills them under
keys computed from the values, and expires what is due.

Two maps are not lists of records.  The native statuses and the assignment
versions are written by splitting their composite keys, so the entry of a key
whose parts hold a NUL is written with other parts than it was made of.

Loading leaves the removed probes and the ingest health as they are, and it
forgets capability reports and source-map leases, which no snapshot has.
-/
import LiveProbe.Native

open JsString Schema

/-! ### Entries -/

structure RingEntry where
  scope : ResourceScope
  probeId : JsString
  values : List ProbeEvent

structure StatusEntry where
  scope : ResourceScope
  probeId : JsString
  value : ProbeStatus
  deriving DecidableEq, Repr

structure SourceMapSetEntry where
  scope : ResourceScope
  serviceId : JsString
  commitSha : JsString
  complete : Bool
  updatedAt : JsString
  maps : List StoredSourceMap

/-- `probeVersion` is `none` where `Number(parts[2])` is not a number. -/
structure NativeStatusEntry where
  scope : ResourceScope
  probeId : JsString
  probeVersion : Option ℕ
  agentId : JsString
  instanceId : JsString
  buildId : JsString
  value : ProbeStatus
  deriving DecidableEq, Repr

structure AssignmentVersionEntry where
  scope : ResourceScope
  agentId : JsString
  version : ℕ
  deriving DecidableEq, Repr

/-- `BrokerSnapshot`, format version 2. -/
structure BrokerSnapshot where
  savedAt : JsString
  probes : List StoredProbe
  serviceVersions : List ScopedServiceVersion
  events : List RingEntry
  services : List ServiceRecord
  statuses : List StatusEntry
  sourceMapSets : List SourceMapSetEntry
  nativeAgents : List NativeAgentRecord
  nativeInstances : List NativeInstanceRecord
  nativeStatuses : List NativeStatusEntry
  nativeAssignmentVersions : List AssignmentVersionEntry

/-! ### Schemas -/

namespace Broker

open Protocol

def storedProbeSchema : Schema StoredProbe := fun p => do
  let scope ← resourceScopeSchema p.scope
  let probe ← probeDefinitionSchema p.probe
  let expiresAt ← nonnegativeInt p.expiresAt
  return { p with scope, probe, expiresAt }

def serviceVersionSchema : Schema ScopedServiceVersion := fun v => do
  let scope ← resourceScopeSchema v.scope
  let serviceId ← serviceIdSchema v.serviceId
  let version ← nonnegativeInt v.version
  return { scope, serviceId, version }

def ringEntrySchema : Schema RingEntry := fun r => do
  let scope ← resourceScopeSchema r.scope
  let probeId ← probeIdSchema r.probeId
  let values ← array probeEventSchema r.values
  return { scope, probeId, values }

/-- `persistedServiceSchema` -/
def persistedServiceSchema : Schema ServiceRecord := fun r => do
  let scope ← resourceScopeSchema r.scope
  let serviceId ← serviceIdSchema r.serviceId
  let lastSeen ← timestampSchema r.lastSeen
  let commitSha ← optional sourceCommitSchema r.commitSha
  let capabilities ← boundedArray agentCapabilitySchema 0 32 (r.capabilities.getD [])
  let agentStatus ← optional agentStatusSchema r.agentStatus
  let instanceCount ← optional nonnegativeInt r.instanceCount
  let buildIds ← optional (array buildIdSchema) r.buildIds
  return { r with
    scope, serviceId, lastSeen, commitSha, capabilities := some capabilities, agentStatus,
    instanceCount, buildIds }

def statusEntrySchema : Schema StatusEntry := fun e => do
  let scope ← resourceScopeSchema e.scope
  let probeId ← probeIdSchema e.probeId
  let value ← persistedStatusSchema e.value
  return { scope, probeId, value }

/-- `sourceMapPathSchema` -/
def sourceMapPathSchema : Schema JsString :=
  trimmedWith 1 4096 fun s =>
    decide (s.drop (s.length - 7) = js ".js.map") && s.head? ≠ some 0x2F &&
      decide (0x5C ∉ s) && decide (js ".." ∉ s.splitOn 0x2F)

def storedSourceMapSchema : Schema StoredSourceMap := fun m => do
  let mapPath ← sourceMapPathSchema m.mapPath
  let uploadedAt ← timestampSchema m.uploadedAt
  return { m with mapPath, uploadedAt }

/-- `persistedSourceMapSetSchema` -/
def sourceMapSetSchema : Schema SourceMapSetEntry := fun e => do
  let scope ← resourceScopeSchema e.scope
  let serviceId ← serviceIdSchema e.serviceId
  let commitSha ← sourceCommitSchema e.commitSha
  let updatedAt ← timestampSchema e.updatedAt
  let maps ← array storedSourceMapSchema e.maps
  return { e with scope, serviceId, commitSha, updatedAt, maps }

/-- `persistedNativeStatusSchema` -/
def nativeStatusEntrySchema : Schema NativeStatusEntry := fun e => do
  let scope ← resourceScopeSchema e.scope
  let probeId ← probeIdSchema e.probeId
  let version ← e.probeVersion
  let version ← positiveInt version
  let agentId ← agentIdSchema e.agentId
  let instanceId ← instanceIdSchema e.instanceId
  let buildId ← buildIdSchema e.buildId
  let value ← persistedStatusSchema e.value
  return { scope, probeId, probeVersion := some version, agentId, instanceId, buildId, value }

/-- `persistedNativeAssignmentVersionSchema` -/
def assignmentVersionSchema : Schema AssignmentVersionEntry := fun e => do
  let scope ← resourceScopeSchema e.scope
  let agentId ← agentIdSchema e.agentId
  let version ← nonnegativeInt e.version
  return { scope, agentId, version }

def snapshotSchema : Schema BrokerSnapshot := fun b => do
  let savedAt ← timestampSchema b.savedAt
  let probes ← array storedProbeSchema b.probes
  let serviceVersions ← array serviceVersionSchema b.serviceVersions
  let events ← array ringEntrySchema b.events
  let services ← array persistedServiceSchema b.services
  let statuses ← array statusEntrySchema b.statuses
  let sourceMapSets ← array sourceMapSetSchema b.sourceMapSets
  let nativeAgents ← array persistedNativeAgentSchema b.nativeAgents
  let nativeInstances ← array persistedNativeInstanceSchema b.nativeInstances
  let nativeStatuses ← array nativeStatusEntrySchema b.nativeStatuses
  let nativeAssignmentVersions ← array assignmentVersionSchema b.nativeAssignmentVersions
  return { savedAt, probes, serviceVersions, events, services, statuses, sourceMapSets,
           nativeAgents, nativeInstances, nativeStatuses, nativeAssignmentVersions }

theorem stable_storedProbeSchema : Stable storedProbeSchema := fun a b h => by
  simp only [storedProbeSchema, Option.bind_eq_bind, Option.bind_eq_some_iff, Option.pure_def,
    Option.some.injEq] at h
  obtain ⟨_, h₁, _, h₂, _, h₃, rfl⟩ := h
  simp only [storedProbeSchema, stable_resourceScopeSchema h₁, stable_probeDefinitionSchema h₂,
    stable_nonnegativeInt h₃, Option.bind_eq_bind, Option.bind_some, Option.pure_def]

theorem stable_serviceVersionSchema : Stable serviceVersionSchema := fun a b h => by
  simp only [serviceVersionSchema, Option.bind_eq_bind, Option.bind_eq_some_iff, Option.pure_def,
    Option.some.injEq] at h
  obtain ⟨_, h₁, _, h₂, _, h₃, rfl⟩ := h
  simp only [serviceVersionSchema, stable_resourceScopeSchema h₁, stable_serviceIdSchema h₂,
    stable_nonnegativeInt h₃, Option.bind_eq_bind, Option.bind_some, Option.pure_def]

theorem stable_ringEntrySchema : Stable ringEntrySchema := fun a b h => by
  simp only [ringEntrySchema, Option.bind_eq_bind, Option.bind_eq_some_iff, Option.pure_def,
    Option.some.injEq] at h
  obtain ⟨_, h₁, _, h₂, _, h₃, rfl⟩ := h
  simp only [ringEntrySchema, stable_resourceScopeSchema h₁, stable_probeIdSchema h₂,
    stable_probeEventSchema.array h₃, Option.bind_eq_bind, Option.bind_some, Option.pure_def]

theorem stable_persistedServiceSchema : Stable persistedServiceSchema := fun a b h => by
  simp only [persistedServiceSchema, Option.bind_eq_bind, Option.bind_eq_some_iff,
    Option.pure_def, Option.some.injEq] at h
  obtain ⟨_, h₁, _, h₂, _, h₃, _, h₄, _, h₅, _, h₆, _, h₇, _, h₈, rfl⟩ := h
  simp only [persistedServiceSchema, stable_resourceScopeSchema h₁, stable_serviceIdSchema h₂,
    stable_timestampSchema h₃, stable_sourceCommitSchema.optional h₄, Option.getD_some,
    stable_agentCapabilitySchema.boundedArray _ _ h₅, stable_agentStatusSchema.optional h₆,
    stable_nonnegativeInt.optional h₇, stable_buildIdSchema.array.optional h₈,
    Option.bind_eq_bind, Option.bind_some, Option.pure_def]

theorem stable_statusEntrySchema : Stable statusEntrySchema := fun a b h => by
  simp only [statusEntrySchema, Option.bind_eq_bind, Option.bind_eq_some_iff, Option.pure_def,
    Option.some.injEq] at h
  obtain ⟨_, h₁, _, h₂, _, h₃, rfl⟩ := h
  simp only [statusEntrySchema, stable_resourceScopeSchema h₁, stable_probeIdSchema h₂,
    stable_persistedStatusSchema h₃, Option.bind_eq_bind, Option.bind_some, Option.pure_def]

theorem stable_storedSourceMapSchema : Stable storedSourceMapSchema := fun a b h => by
  simp only [storedSourceMapSchema, Option.bind_eq_bind, Option.bind_eq_some_iff,
    Option.pure_def, Option.some.injEq] at h
  obtain ⟨_, h₁, _, h₂, rfl⟩ := h
  have hp : Stable sourceMapPathSchema := stable_trimmedWith _ _ _
  simp only [storedSourceMapSchema, hp h₁, stable_timestampSchema h₂,
    Option.bind_eq_bind, Option.bind_some, Option.pure_def]

theorem stable_sourceMapSetSchema : Stable sourceMapSetSchema := fun a b h => by
  simp only [sourceMapSetSchema, Option.bind_eq_bind, Option.bind_eq_some_iff,
    Option.pure_def, Option.some.injEq] at h
  obtain ⟨_, h₁, _, h₂, _, h₃, _, h₄, _, h₅, rfl⟩ := h
  simp only [sourceMapSetSchema, stable_resourceScopeSchema h₁, stable_serviceIdSchema h₂,
    stable_sourceCommitSchema h₃, stable_timestampSchema h₄,
    stable_storedSourceMapSchema.array h₅, Option.bind_eq_bind, Option.bind_some, Option.pure_def]

theorem stable_nativeStatusEntrySchema : Stable nativeStatusEntrySchema := fun a b h => by
  simp only [nativeStatusEntrySchema, Option.bind_eq_bind, Option.bind_eq_some_iff,
    Option.pure_def, Option.some.injEq] at h
  obtain ⟨_, h₁, _, h₂, _, _, _, h₃, _, h₄, _, h₅, _, h₆, _, h₇, rfl⟩ := h
  simp only [nativeStatusEntrySchema, stable_resourceScopeSchema h₁, stable_probeIdSchema h₂,
    stable_positiveInt h₃, stable_agentIdSchema h₄, stable_instanceIdSchema h₅,
    stable_buildIdSchema h₆, stable_persistedStatusSchema h₇, Option.bind_eq_bind,
    Option.bind_some, Option.pure_def]

theorem stable_assignmentVersionSchema : Stable assignmentVersionSchema := fun a b h => by
  simp only [assignmentVersionSchema, Option.bind_eq_bind, Option.bind_eq_some_iff,
    Option.pure_def, Option.some.injEq] at h
  obtain ⟨_, h₁, _, h₂, _, h₃, rfl⟩ := h
  simp only [assignmentVersionSchema, stable_resourceScopeSchema h₁, stable_agentIdSchema h₂,
    stable_nonnegativeInt h₃, Option.bind_eq_bind, Option.bind_some, Option.pure_def]

/-- The parts a snapshot's schema reads one by one. -/
structure SnapshotParts (a b : BrokerSnapshot) : Prop where
  savedAt : timestampSchema a.savedAt = some b.savedAt
  probes : array storedProbeSchema a.probes = some b.probes
  serviceVersions : array serviceVersionSchema a.serviceVersions = some b.serviceVersions
  events : array ringEntrySchema a.events = some b.events
  services : array persistedServiceSchema a.services = some b.services
  statuses : array statusEntrySchema a.statuses = some b.statuses
  sourceMapSets : array sourceMapSetSchema a.sourceMapSets = some b.sourceMapSets
  nativeAgents : array persistedNativeAgentSchema a.nativeAgents = some b.nativeAgents
  nativeInstances : array persistedNativeInstanceSchema a.nativeInstances = some b.nativeInstances
  nativeStatuses : array nativeStatusEntrySchema a.nativeStatuses = some b.nativeStatuses
  nativeAssignmentVersions :
    array assignmentVersionSchema a.nativeAssignmentVersions = some b.nativeAssignmentVersions

theorem snapshotSchema_eq_some {a b : BrokerSnapshot} :
    snapshotSchema a = some b ↔ SnapshotParts a b := by
  simp only [snapshotSchema, Option.bind_eq_bind, Option.bind_eq_some_iff, Option.pure_def,
    Option.some.injEq]
  constructor
  · rintro ⟨_, h₁, _, h₂, _, h₃, _, h₄, _, h₅, _, h₆, _, h₇, _, h₈, _, h₉, _, h₁₀, _, h₁₁, rfl⟩
    exact ⟨h₁, h₂, h₃, h₄, h₅, h₆, h₇, h₈, h₉, h₁₀, h₁₁⟩
  · rintro ⟨h₁, h₂, h₃, h₄, h₅, h₆, h₇, h₈, h₉, h₁₀, h₁₁⟩
    exact ⟨_, h₁, _, h₂, _, h₃, _, h₄, _, h₅, _, h₆, _, h₇, _, h₈, _, h₉, _, h₁₀, _, h₁₁, rfl⟩

/-- **A snapshot that was parsed once is parsed again unchanged.** -/
theorem stable_snapshotSchema : Stable snapshotSchema := fun a b h => by
  rw [snapshotSchema_eq_some] at h ⊢
  exact ⟨stable_timestampSchema h.savedAt, stable_storedProbeSchema.array h.probes,
    stable_serviceVersionSchema.array h.serviceVersions, stable_ringEntrySchema.array h.events,
    stable_persistedServiceSchema.array h.services, stable_statusEntrySchema.array h.statuses,
    stable_sourceMapSetSchema.array h.sourceMapSets,
    stable_persistedNativeAgentSchema.array h.nativeAgents,
    stable_persistedNativeInstanceSchema.array h.nativeInstances,
    stable_nativeStatusEntrySchema.array h.nativeStatuses,
    stable_assignmentVersionSchema.array h.nativeAssignmentVersions⟩

end Broker

/-! ### Writing -/

namespace BrokerState

open Broker

/-- The entry of a ring, unless its probe is gone. -/
def ringEntry (s : BrokerState) (e : JsString × List ProbeEvent) : Option RingEntry :=
  (s.probes.get? e.1).map fun stored => { scope := stored.scope, probeId := e.1, values := e.2 }

def statusEntry (s : BrokerState) (e : JsString × ProbeStatus) : Option StatusEntry :=
  (s.probes.get? e.1).map fun stored => { scope := stored.scope, probeId := e.1, value := e.2 }

def sourceMapSetEntry (set : SourceMapSet) : SourceMapSetEntry :=
  { scope := set.scope, serviceId := set.serviceId, commitSha := set.commitSha
    complete := set.complete, updatedAt := set.updatedAt, maps := set.maps.values }

/-- The entry of a native status: its key is split, and its scope is that of
the probe the key names. -/
def nativeStatusEntry (s : BrokerState) (e : JsString × ProbeStatus) :
    Option NativeStatusEntry := do
  let parts := splitNul e.1
  let probeId ← parts[1]?
  let agentId ← parts[3]?
  let instanceId ← parts[4]?
  let buildId ← parts[5]?
  let stored ← s.probes.get? probeId
  return { scope := stored.scope, probeId, probeVersion := parts[2]?.bind readDecimal, agentId,
           instanceId, buildId, value := e.2 }

/-- The entry of an assignment version, when the agent of its key is registered. -/
def assignmentVersionEntry (s : BrokerState) (e : JsString × ℕ) :
    Option AssignmentVersionEntry := do
  let agentId ← (splitNul e.1)[1]?
  let agent ← s.nativeAgents.values.find? fun agent => nativeAgentKey agent.scope agent.agentId = e.1
  return { scope := agent.scope, agentId, version := e.2 }

/-- What `snapshot` hands to its schema. -/
def snapshotData (now : ℕ) (s : BrokerState) : BrokerSnapshot :=
  { savedAt := IsoDate.toISOString now
    probes := s.probes.values
    serviceVersions := s.serviceVersions.values
    events := s.events.entries.filterMap s.ringEntry
    services := s.services.values
    statuses := s.statuses.entries.filterMap s.statusEntry
    sourceMapSets := s.sourceMapSets.values.map sourceMapSetEntry
    nativeAgents := s.nativeAgents.values
    nativeInstances := s.nativeInstances.values
    nativeStatuses := s.nativeStatuses.entries.filterMap s.nativeStatusEntry
    nativeAssignmentVersions :=
      s.nativeAssignmentVersions.entries.filterMap s.assignmentVersionEntry }

/-- `snapshot`; `none` when its schema throws. -/
def snapshot (now : ℕ) (s : BrokerState) : Option BrokerSnapshot :=
  snapshotSchema (s.snapshotData now)

/-! ### Loading -/

def sourceMapSetOf (e : SourceMapSetEntry) : SourceMapSet :=
  { scope := e.scope, serviceId := e.serviceId, commitSha := e.commitSha
    complete := e.complete, updatedAt := e.updatedAt
    maps := JsMap.ofEntries (e.maps.map fun m => (m.mapPath, m)) }

/-- `entry.values.slice(-this.ringCapacity)` -/
def lastEvents (cfg : Config) (values : List ProbeEvent) : List ProbeEvent :=
  values.drop (values.length - cfg.ringCapacity)

/-- `replaceWithSnapshot` up to its last line. -/
def refill (cfg : Config) (b : BrokerSnapshot) (s : BrokerState) : BrokerState :=
  { probes := JsMap.ofEntries (b.probes.map fun p => (p.probe.id, p))
    serviceVersions :=
      JsMap.ofEntries (b.serviceVersions.map fun v => (serviceKey v.scope v.serviceId, v))
    events := JsMap.ofEntries (b.events.map fun e => (e.probeId, lastEvents cfg e.values))
    services := JsMap.ofEntries (b.services.map fun r =>
      (serviceKey r.scope r.serviceId, { r with capabilities := some [] }))
    agentCapabilityReports := ∅
    statuses := JsMap.ofEntries (b.statuses.map fun e => (e.probeId, e.value))
    sourceMapSets := JsMap.ofEntries (b.sourceMapSets.map fun e =>
      (sourceMapKey e.scope e.serviceId e.commitSha, sourceMapSetOf e))
    sourceMapLeases := ∅
    nativeAgents :=
      JsMap.ofEntries (b.nativeAgents.map fun a => (nativeAgentKey a.scope a.agentId, a))
    nativeInstances := JsMap.ofEntries (b.nativeInstances.map fun i =>
      (nativeInstanceKey i.scope i.agentId i.instanceId, i))
    nativeStatuses := JsMap.ofEntries (b.nativeStatuses.map fun e =>
      (nativeStatusKey e.scope e.probeId (e.probeVersion.getD 0) e.agentId e.instanceId e.buildId,
        e.value))
    recentlyRemovedProbes := s.recentlyRemovedProbes
    nativeIngestHealth := s.nativeIngestHealth
    nativeAssignmentVersions := JsMap.ofEntries (b.nativeAssignmentVersions.map fun e =>
      (nativeAgentKey e.scope e.agentId, e.version)) }

/-- `replaceWithSnapshot` -/
def replaceWithSnapshot (cfg : Config) (now : ℕ) (b : BrokerSnapshot) (s : BrokerState) :
    BrokerState :=
  (s.refill cfg b).expireDueProbes cfg now

/-- `loadSnapshot`; a snapshot its schema rejects throws and changes nothing. -/
def loadSnapshot (cfg : Config) (now : ℕ) (b : BrokerSnapshot) (s : BrokerState) :
    BrokerState × Except BrokerError Unit :=
  match snapshotSchema b with
  | none => (s, .error .invalid)
  | some b => (s.replaceWithSnapshot cfg now b, .ok ())

end BrokerState
