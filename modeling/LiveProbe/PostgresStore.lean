/-
LiveProbe/PostgresStore.lean

`PostgresStore` of `store/postgres.ts`: what each persist call writes, and what
`restore` hands to `loadSnapshot`.

The tables hold rows under their primary keys; those of the probes and of the
native agents carry their foreign keys, so a statement that violates one fails,
and its transaction with it (`none`).  The tables of the resource catalog, which
the scopes refer to, are not here, nor is the snapshot of an older format that
is read where there are no rows at all.  A timestamp that the broker's clock
wrote comes back as the same text.
-/
import LiveProbe.Process
import LiveProbe.Upserts

open JsString BrokerState

/-- What PostgreSQL decides: the order of texts, and `>=` of texts read as `timestamptz`. -/
structure Postgres where
  le : JsString → JsString → Bool
  notBefore : JsString → JsString → Bool

namespace Postgres

/-- The order by several columns. -/
def columnsLe (db : Postgres) : List JsString → List JsString → Bool
  | [], _ => true
  | _ :: _, [] => false
  | a :: l, b :: l' => if a = b then db.columnsLe l l' else db.le a b

/-- `order by` -/
def orderBy {α : Type*} (db : Postgres) (columns : α → List JsString) (rows : List α) : List α :=
  rows.mergeSort fun a b => db.columnsLe (columns a) (columns b)

end Postgres

/-! ### Tables -/

structure EventRow where
  tenantId : JsString
  probeId : JsString
  sequence : ℕ
  event : ProbeEvent

structure StatusRow where
  tenantId : JsString
  probeId : JsString
  value : ProbeStatus

/-- `probes`, `probe_events` and `probe_statuses` -/
structure ProbeTables where
  probes : Table fun p : StoredProbe => p.probe.id
  events : Table fun row : EventRow => (row.probeId, row.sequence)
  statuses : Table StatusRow.probeId
  event_probe : events.Holds fun row => probes.has row.probeId = true
  status_probe : statuses.Holds fun row => probes.has row.probeId = true

instance : EmptyCollection ProbeTables := ⟨∅, ∅, ∅, .empty, .empty⟩

/-- `native_agents`, `native_instances`, `native_probe_statuses` and `native_assignment_versions` -/
structure NativeTables where
  agents : Table fun a : NativeAgentRecord => (a.scope, a.agentId)
  instances : Table fun i : NativeInstanceRecord => (i.scope, i.agentId, i.instanceId)
  statuses : Table fun e : NativeStatusEntry =>
    ((e.scope, e.probeId, e.probeVersion), e.agentId, e.instanceId, e.buildId)
  assignmentVersions : Table fun e : AssignmentVersionEntry => (e.scope, e.agentId)
  instance_agent : instances.Holds fun i => agents.has (i.scope, i.agentId) = true

instance : EmptyCollection NativeTables := ⟨∅, ∅, ∅, ∅, .empty⟩

/-- The maps of a source-map set are deleted and inserted with it, and listed in its row. -/
structure Tables where
  services : Table fun r : ServiceRecord => (r.scope, r.serviceId) := ∅
  serviceVersions : Table fun v : ScopedServiceVersion => (v.scope, v.serviceId) := ∅
  sourceMapSets : Table fun e : SourceMapSetEntry => (e.scope, e.serviceId, e.commitSha) := ∅
  probes : ProbeTables := ∅
  native : NativeTables := ∅

instance : Inhabited Tables := ⟨{}⟩

namespace ProbeTables

/-- `insertProbes` -/
def insertProbes (rows : List StoredProbe) (d : ProbeTables) : ProbeTables :=
  { d with
    probes := d.probes.upsertAll .overwrite rows
    event_probe := fun row h => Table.has_upsertAll (d.event_probe row h)
    status_probe := fun row h => Table.has_upsertAll (d.status_probe row h) }

/-- The rows of a ring, its last 500 events. -/
def eventRows (entry : RingEntry) : List EventRow :=
  (entry.values.drop (entry.values.length - 500)).mapIdx fun sequence event =>
    ⟨entry.scope.tenantId, entry.probeId, sequence, event⟩

/-- `insertEvents` -/
def insertEvents (entries : List RingEntry) (d : ProbeTables) : Option ProbeTables :=
  let rows := entries.flatMap eventRows
  if h : ∀ row ∈ rows, d.probes.has row.probeId = true then
    some { d with
      events := d.events.upsertAll .overwrite rows
      event_probe := d.event_probe.overwriteAll h }
  else none

/-- `insertStatuses` -/
def insertStatuses (db : Postgres) (entries : List StatusEntry) (d : ProbeTables) : Option ProbeTables :=
  let rows := entries.map fun entry => (⟨entry.scope.tenantId, entry.probeId, entry.value⟩ : StatusRow)
  if h : ∀ row ∈ rows, d.probes.has row.probeId = true then
    some { d with
      statuses := d.statuses.upsertAll
        (.overwriteWhere fun old row => db.notBefore row.value.updatedAt old.value.updatedAt) rows
      status_probe := d.status_probe.overwriteWhere h _ }
  else none

theorem holds_cascade {α κ : Type*} [DecidableEq κ] {key : α → κ} (t : Table key) (kept : α → Bool) :
    (t.deleteWhere fun row => !kept row).Holds fun row => kept row = true := by
  rw [Table.holds_iff]
  intro k row h
  rw [Table.get?_deleteWhere, Option.filter_eq_some_iff, Bool.not_not] at h
  exact h.2

/-- `delete from probes`, and what refers to the probe goes with it. -/
def deleteProbe (probeId : JsString) (scope : ResourceScope) (d : ProbeTables) : ProbeTables :=
  let probes := d.probes.deleteWhere fun p => p.probe.id = probeId && p.scope = scope
  { probes
    events := d.events.deleteWhere fun row => !probes.has row.probeId
    statuses := d.statuses.deleteWhere fun row => !probes.has row.probeId
    event_probe := holds_cascade d.events fun row => probes.has row.probeId
    status_probe := holds_cascade d.statuses fun row => probes.has row.probeId }

/-- `delete from probe_events` -/
def deleteEvents (probeIds : List JsString) (tenantId : JsString) (d : ProbeTables) : ProbeTables :=
  { d with
    events := d.events.deleteWhere fun row => row.probeId ∈ probeIds && row.tenantId = tenantId
    event_probe := d.event_probe.deleteWhere _ }

end ProbeTables

namespace NativeTables

/-- The two statuses' `updatedAt`, the row inserted not before the one there is. -/
def replacesStatus (db : Postgres) (old row : NativeStatusEntry) : Bool :=
  db.notBefore row.value.updatedAt old.value.updatedAt

/-- `greatest(native_assignment_versions.version, excluded.version)` -/
def greatest : Merge fun e : AssignmentVersionEntry => (e.scope, e.agentId) :=
  ⟨fun old row => { row with version := max old.version row.version }, fun _ _ _ => rfl⟩

/-- `insertNativeState` -/
def insertNativeState (db : Postgres) (b : BrokerSnapshot) (d : NativeTables) : Option NativeTables :=
  let agents := d.agents.upsertAll (.overwriteWhere fun old row => db.notBefore row.lastSeen old.lastSeen)
    b.nativeAgents
  if h : ∀ i ∈ b.nativeInstances, agents.has (i.scope, i.agentId) = true then
    some {
      agents
      instances := d.instances.upsertAll (.overwriteWhere fun old row => db.notBefore row.lastSeen old.lastSeen)
        b.nativeInstances
      statuses := d.statuses.upsertAll (.overwriteWhere (replacesStatus db)) b.nativeStatuses
      assignmentVersions := d.assignmentVersions.upsertAll greatest b.nativeAssignmentVersions
      instance_agent := by
        have hold : d.instances.Holds fun i => agents.has (i.scope, i.agentId) = true :=
          fun i hi => Table.has_upsertAll (d.instance_agent i hi)
        exact hold.overwriteWhere h _ }
  else none

/-- `delete from native_instances` -/
def deleteInstances (agentId : JsString) (scope : ResourceScope) (d : NativeTables) : NativeTables :=
  { d with
    instances := d.instances.deleteWhere fun i => i.scope = scope && i.agentId = agentId
    instance_agent := d.instance_agent.deleteWhere _ }

/-- `delete from native_probe_statuses` where the agent has no such instance. -/
def deleteStatuses (agentId : JsString) (scope : ResourceScope) (d : NativeTables) : NativeTables :=
  { d with
    statuses := d.statuses.deleteWhere fun e =>
      e.scope = scope && e.agentId = agentId &&
        !(d.instances.values.any fun i =>
          i.scope = e.scope && i.agentId = e.agentId && i.instanceId = e.instanceId && i.buildId = e.buildId) }

end NativeTables

namespace Tables

/-! ### The persist calls -/

section

variable (db : Postgres)

/-- `insertServices` -/
def insertServices (rows : List ServiceRecord) (d : Tables) : Tables :=
  { d with
    services := d.services.upsertAll .overwrite (rows.map fun r =>
      { r with capabilities := some (r.capabilities.getD []) }) }

/-- `insertVersions` -/
def insertVersions (rows : List ScopedServiceVersion) (d : Tables) : Tables :=
  { d with serviceVersions := d.serviceVersions.upsertAll .overwrite rows }

def insertProbes (rows : List StoredProbe) (d : Tables) : Tables := { d with probes := d.probes.insertProbes rows }

def insertEvents (entries : List RingEntry) (d : Tables) : Option Tables := do
  return { d with probes := ← d.probes.insertEvents entries }

def insertStatuses (entries : List StatusEntry) (d : Tables) : Option Tables := do
  return { d with probes := ← d.probes.insertStatuses db entries }

def insertNativeState (b : BrokerSnapshot) (d : Tables) : Option Tables := do
  return { d with native := ← d.native.insertNativeState db b }

def persist (b : BrokerSnapshot) (d : Tables) : Option Tables := do
  let d := (d.insertServices b.services).insertProbes b.probes
  let d ← d.insertEvents b.events
  let d ← d.insertStatuses db b.statuses
  (d.insertVersions b.serviceVersions).insertNativeState db b

def persistProbe (b : BrokerSnapshot) (probeId : JsString) (scope : ResourceScope) (d : Tables) : Option Tables :=
  match b.probes.filter fun p => p.probe.id = probeId && p.scope = scope with
  | [] => some d
  | p :: rest =>
    let versions := b.serviceVersions.filter fun v => v.serviceId = p.probe.serviceId && v.scope = scope
    ((d.insertProbes (p :: rest)).insertVersions versions).insertNativeState db b

def deleteProbe (b : BrokerSnapshot) (probeId : JsString) (scope : ResourceScope) (d : Tables) : Option Tables :=
  let d := { d with probes := d.probes.deleteProbe probeId scope }
  (d.insertVersions b.serviceVersions).insertNativeState db b

/-- The last statements of the two ingests. -/
def writeEvents (b : BrokerSnapshot) (probeIds : List JsString) (scope : ResourceScope) (d : Tables) :
    Option Tables := do
  let d := { d with probes := d.probes.deleteEvents probeIds scope.tenantId }
  let d ← d.insertEvents (b.events.filter fun entry => entry.probeId ∈ probeIds && entry.scope = scope)
  d.insertStatuses db (b.statuses.filter fun entry => entry.probeId ∈ probeIds && entry.scope = scope)

def persistIngest (b : BrokerSnapshot) (input : IngestInput) (scope : ResourceScope) (d : Tables) : Option Tables :=
  let services := b.services.filter fun r => r.serviceId = input.serviceId && r.scope = scope
  (d.insertServices services).writeEvents db b (input.events.map (·.probeId)).eraseDups scope

def persistNativeAgent (b : BrokerSnapshot) (agentId : JsString) (scope : ResourceScope) (d : Tables) :
    Option Tables :=
  d.insertNativeState db { b with
    nativeAgents := b.nativeAgents.filter fun a => a.agentId = agentId && a.scope = scope
    nativeInstances := []
    nativeStatuses := []
    nativeAssignmentVersions := b.nativeAssignmentVersions.filter fun v => v.agentId = agentId && v.scope = scope }

/-- `delete from services` where no instance runs a native service. -/
def deleteNativeServices (scope : ResourceScope) (d : Tables) : Tables :=
  { d with
    services := d.services.deleteWhere fun r =>
      r.scope = scope && r.backend = some .nativeEbpf &&
        !(d.native.instances.values.any fun i => i.scope = r.scope && i.serviceId = r.serviceId) }

def persistNativeInstances (b : BrokerSnapshot) (agentId : JsString) (scope : ResourceScope) (d : Tables) :
    Option Tables := do
  let d ← d.persistNativeAgent db b agentId scope
  let d := { d with native := d.native.deleteInstances agentId scope }
  let d ← d.insertNativeState db { b with
    nativeAgents := []
    nativeInstances := b.nativeInstances.filter fun i => i.agentId = agentId && i.scope = scope
    nativeStatuses := []
    nativeAssignmentVersions := [] }
  let d := { d with native := d.native.deleteStatuses agentId scope }
  let nativeServices := b.services.filter fun r => r.backend = some .nativeEbpf && r.scope = scope
  return (d.deleteNativeServices scope).insertServices nativeServices

def persistNativeIngest (b : BrokerSnapshot) (input : NativeIngestEnvelope) (scope : ResourceScope) (d : Tables) :
    Option Tables := do
  let probeIds := (input.events.map (·.probeId)).eraseDups
  let services := b.services.filter fun r => r.serviceId = input.serviceId && r.scope = scope
  let d ← (d.insertServices services).insertNativeState db { b with
    nativeAgents := b.nativeAgents.filter fun a => a.agentId = input.agentId && a.scope = scope
    nativeInstances := []
    nativeStatuses := b.nativeStatuses.filter fun e =>
      e.agentId = input.agentId && e.instanceId = input.instanceId && e.buildId = input.buildId &&
        e.probeId ∈ probeIds && e.scope = scope
    nativeAssignmentVersions := b.nativeAssignmentVersions.filter fun v =>
      v.agentId = input.agentId && v.scope = scope }
  d.writeEvents db b probeIds scope

end

/-- `persistSourceMapSet`; `set` is the state's set, and `b` its snapshot. -/
def persistSourceMapSet (set : SourceMapSet) (b : BrokerSnapshot) (d : Tables) : Tables :=
  let retainedCommits :=
    (b.sourceMapSets.filter fun e => e.scope = set.scope && e.serviceId = set.serviceId).map (·.commitSha)
  let sets := d.sourceMapSets.upsertAll .overwrite [sourceMapSetEntry set]
  { d with
    sourceMapSets := sets.deleteWhere fun e =>
      e.scope = set.scope && e.serviceId = set.serviceId && e.commitSha ∉ retainedCommits }

/-! ### Restoring -/

/-- The events of a probe in the order of their sequence. -/
def ringOf (d : Tables) (p : StoredProbe) : RingEntry where
  scope := p.scope
  probeId := p.probe.id
  values := ((d.probes.events.values.filter fun row => row.probeId = p.probe.id).mergeSort fun a b =>
    a.sequence ≤ b.sequence).map (·.event)

/-- A status with the scope of its probe, which is there. -/
def statusOf (d : Tables) (row : StatusRow) : Option StatusEntry :=
  (d.probes.probes.get? row.probeId).map fun p => ⟨p.scope, row.probeId, row.value⟩

/-- What `restore` hands to `loadSnapshot`. -/
def stored (db : Postgres) (now : ℕ) (d : Tables) : BrokerSnapshot :=
  let probes := db.orderBy (fun p => [p.probe.id]) d.probes.probes.values
  { savedAt := IsoDate.toISOString now
    probes
    serviceVersions := db.orderBy (fun v => [v.serviceId]) d.serviceVersions.values
    events := probes.map d.ringOf
    services := db.orderBy (fun r => [r.serviceId]) d.services.values
    statuses := (db.orderBy (fun row => [row.probeId]) d.probes.statuses.values).filterMap d.statusOf
    sourceMapSets := (db.orderBy (fun e => [e.serviceId, e.commitSha]) d.sourceMapSets.values).map fun e =>
      { e with maps := db.orderBy (fun m => [m.mapPath]) e.maps }
    nativeAgents := db.orderBy (fun a => [a.scope.tenantId, a.scope.projectId, a.scope.environmentId, a.agentId])
      d.native.agents.values
    nativeInstances := db.orderBy
      (fun i => [i.scope.tenantId, i.scope.projectId, i.scope.environmentId, i.agentId, i.instanceId])
      d.native.instances.values
    nativeStatuses := d.native.statuses.values
    nativeAssignmentVersions := d.native.assignmentVersions.values }

/-- `restore` into a fresh broker; `none` when it throws. -/
def restore (cfg : Config) (db : Postgres) (now : ℕ) (d : Tables) : Option BrokerState :=
  match ({} : BrokerState).loadSnapshot cfg now (d.stored db now) with
  | (s, .ok ()) => some s
  | (_, .error _) => none

end Tables
