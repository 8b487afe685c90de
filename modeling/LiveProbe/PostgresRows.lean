/-
LiveProbe/PostgresRows.lean

The rows of the tables: what each persist call does to the probes and to the
service versions, and that every row passes the schema of its part of a
snapshot, since it was taken from one.  So a restore never throws.
-/
import LiveProbe.PostgresStore

open JsString Broker Protocol Schema BrokerState

namespace Tables

/-! ### Rows pass their schemas -/

/-- Every row is read as it stands. -/
structure Parsed (d : Tables) : Prop where
  services : d.services.Holds fun r => persistedServiceSchema r = some r
  serviceVersions : d.serviceVersions.Holds fun v => serviceVersionSchema v = some v
  sourceMapSets : d.sourceMapSets.Holds fun e => sourceMapSetSchema e = some e
  probes : d.probes.probes.Holds fun p => storedProbeSchema p = some p
  events : d.probes.events.Holds fun row => probeEventSchema row.event = some row.event
  statuses : d.probes.statuses.Holds fun row =>
    probeIdSchema row.probeId = some row.probeId ∧ persistedStatusSchema row.value = some row.value
  agents : d.native.agents.Holds fun a => persistedNativeAgentSchema a = some a
  instances : d.native.instances.Holds fun i => persistedNativeInstanceSchema i = some i
  nativeStatuses : d.native.statuses.Holds fun e => nativeStatusEntrySchema e = some e
  assignmentVersions : d.native.assignmentVersions.Holds fun e => assignmentVersionSchema e = some e

/-- The tables of an empty database. -/
theorem Parsed.init : Parsed {} :=
  ⟨.empty, .empty, .empty, .empty, .empty, .empty, .empty, .empty, .empty, .empty⟩

variable {db : Postgres} {d d' : Tables} {b : BrokerSnapshot}

/-- Every entry is read as it stands. -/
def Reads (b : BrokerSnapshot) : Prop := SnapshotParts b b

/-- A snapshot that was taken has passed its schema. -/
theorem reads_of_snapshot {s : BrokerState} {now : ℕ} (h : s.snapshot now = some b) : Reads b :=
  snapshotSchema_eq_some.mp (stable_snapshotSchema h)

namespace Parsed

/-- The row is written with the capabilities the schema gave it. -/
theorem insertServices (hd : d.Parsed) {rows : List ServiceRecord}
    (hrows : ∀ r ∈ rows, persistedServiceSchema r = some r) : (d.insertServices rows).Parsed := by
  refine { hd with services := hd.services.overwriteAll fun r hr => ?_ }
  obtain ⟨r, hmem, rfl⟩ := List.mem_map.mp hr
  have hread := hrows r hmem
  -- a record that was read has its capabilities
  have hsome : r.capabilities = some (r.capabilities.getD []) := by
    simp only [persistedServiceSchema, Option.bind_eq_bind, Option.bind_eq_some_iff, Option.pure_def,
      Option.some.injEq] at hread
    obtain ⟨_, -, _, -, _, -, _, -, capabilities, -, _, -, _, -, _, -, hread⟩ := hread
    rw [← hread]
    rfl
  rw [← hsome]
  exact hread

theorem insertVersions (hd : d.Parsed) {rows : List ScopedServiceVersion}
    (hrows : ∀ v ∈ rows, serviceVersionSchema v = some v) : (d.insertVersions rows).Parsed :=
  { hd with serviceVersions := hd.serviceVersions.overwriteAll hrows }

theorem insertProbes (hd : d.Parsed) {rows : List StoredProbe} (hrows : ∀ p ∈ rows, storedProbeSchema p = some p) :
    (d.insertProbes rows).Parsed :=
  { hd with probes := hd.probes.overwriteAll hrows }

/-- The events of a row are entries of a ring that was read. -/
theorem insertEvents (hd : d.Parsed) {entries : List RingEntry} (hrows : ∀ e ∈ entries, ringEntrySchema e = some e)
    (h : d.insertEvents entries = some d') : d'.Parsed := by
  unfold Tables.insertEvents ProbeTables.insertEvents at h
  dsimp only at h
  split at h
  · cases h
    refine { hd with events := hd.events.overwriteAll fun row hrow => ?_ }
    obtain ⟨entry, hentry, hrow⟩ := List.mem_flatMap.mp hrow
    obtain ⟨i, hi, rfl⟩ := List.mem_mapIdx.mp hrow
    have hread := hrows entry hentry
    simp only [ringEntrySchema, Option.bind_eq_bind, Option.bind_eq_some_iff, Option.pure_def, Option.some.injEq] at hread
    obtain ⟨_, -, _, -, values, hvalues, hread⟩ := hread
    obtain rfl : values = entry.values := by rw [← hread]
    exact array_self.mp hvalues _ (List.mem_of_mem_drop (List.getElem_mem hi))
  · cases h

/-- A status keeps the identifier and the value of its entry, without its scope. -/
theorem insertStatuses (hd : d.Parsed) {entries : List StatusEntry} (hrows : ∀ e ∈ entries, statusEntrySchema e = some e)
    (h : d.insertStatuses db entries = some d') : d'.Parsed := by
  unfold Tables.insertStatuses ProbeTables.insertStatuses at h
  dsimp only at h
  split at h
  · cases h
    refine { hd with statuses := hd.statuses.overwriteWhere (fun row hrow => ?_) _ }
    obtain ⟨entry, hentry, rfl⟩ := List.mem_map.mp hrow
    have hread := hrows entry hentry
    simp only [statusEntrySchema, Option.bind_eq_bind, Option.bind_eq_some_iff, Option.pure_def, Option.some.injEq] at hread
    obtain ⟨_, -, probeId, hid, value, hvalue, hread⟩ := hread
    obtain rfl : probeId = entry.probeId := by rw [← hread]
    obtain rfl : value = entry.value := by rw [← hread]
    -- the two columns of the row
    exact ⟨hid, hvalue⟩
  · cases h

/-- The greater of two versions is a version. -/
theorem greatest {old row : AssignmentVersionEntry} (hold : assignmentVersionSchema old = some old)
    (hrow : assignmentVersionSchema row = some row) :
    assignmentVersionSchema (NativeTables.greatest.merge old row) =
      some (NativeTables.greatest.merge old row) := by
  simp only [assignmentVersionSchema, Option.bind_eq_bind, Option.bind_eq_some_iff, Option.pure_def,
    Option.some.injEq] at hold hrow
  obtain ⟨_, -, _, -, v, hv, hold⟩ := hold
  obtain ⟨scope, hscope, agentId, hagent, w, hw, hrow⟩ := hrow
  obtain rfl : v = old.version := by rw [← hold]
  obtain rfl : scope = row.scope := by rw [← hrow]
  obtain rfl : agentId = row.agentId := by rw [← hrow]
  obtain rfl : w = row.version := by rw [← hrow]
  -- versions are below the greatest safe integer
  have hmax : nonnegativeInt (max old.version row.version) = some (max old.version row.version) :=
    nonnegativeInt_eq_some.mpr ⟨max_le (nonnegativeInt_eq_some.mp hv).1 (nonnegativeInt_eq_some.mp hw).1, rfl⟩
  show assignmentVersionSchema { row with version := max old.version row.version } =
    some { row with version := max old.version row.version }
  simp only [assignmentVersionSchema, hscope, hagent, hmax, Option.bind_eq_bind, Option.bind_some, Option.pure_def]

/-- Agents, instances and statuses are overwritten, versions only raised. -/
theorem insertNativeState (hd : d.Parsed) (hagents : ∀ a ∈ b.nativeAgents, persistedNativeAgentSchema a = some a)
    (hinstances : ∀ i ∈ b.nativeInstances, persistedNativeInstanceSchema i = some i)
    (hstatuses : ∀ e ∈ b.nativeStatuses, nativeStatusEntrySchema e = some e)
    (hversions : ∀ e ∈ b.nativeAssignmentVersions, assignmentVersionSchema e = some e)
    (h : d.insertNativeState db b = some d') : d'.Parsed := by
  unfold Tables.insertNativeState NativeTables.insertNativeState at h
  dsimp only at h
  split at h
  · cases h
    exact { hd with
      agents := hd.agents.overwriteWhere hagents _
      instances := hd.instances.overwriteWhere hinstances _
      nativeStatuses := hd.nativeStatuses.overwriteWhere hstatuses _
      assignmentVersions := hd.assignmentVersions.upsertAll hversions fun _ _ => greatest }
  · cases h

/-! ### The persist calls -/

section

variable (hb : Reads b)

include hb

/-- All that a snapshot holds of the native agents is written. -/
theorem native (hd : d.Parsed) (h : d.insertNativeState db b = some d') : d'.Parsed :=
  hd.insertNativeState (array_self.mp hb.nativeAgents) (array_self.mp hb.nativeInstances)
    (array_self.mp hb.nativeStatuses) (array_self.mp hb.nativeAssignmentVersions) h

/-- Every table in turn, and what is read of each part. -/
theorem persist (hd : d.Parsed) (h : d.persist db b = some d') : d'.Parsed := by
  simp only [Tables.persist, Option.bind_eq_bind, Option.bind_eq_some_iff] at h
  obtain ⟨d₁, h₁, d₂, h₂, h⟩ := h
  have hd₁ : d₁.Parsed := ((hd.insertServices (array_self.mp hb.services)).insertProbes
    (array_self.mp hb.probes)).insertEvents (array_self.mp hb.events) h₁
  have hd₂ : d₂.Parsed := hd₁.insertStatuses (array_self.mp hb.statuses) h₂
  exact (hd₂.insertVersions (array_self.mp hb.serviceVersions)).native hb h

/-- A probe is written with the version of its service, or not at all. -/
theorem persistProbe (hd : d.Parsed) {probeId : JsString} {scope : ResourceScope}
    (h : d.persistProbe db b probeId scope = some d') : d'.Parsed := by
  unfold Tables.persistProbe at h
  split at h
  · cases h
    exact hd
  · rename_i p rest hfilter
    refine ((hd.insertProbes fun p' hp' => ?_).insertVersions fun v hv => ?_).native hb h
    · rw [← hfilter] at hp'
      exact array_self.mp hb.probes p' (List.mem_of_mem_filter hp')
    · exact array_self.mp hb.serviceVersions v (List.mem_of_mem_filter hv)

/-- The deletion cascades to the events and the status of the probe. -/
theorem deleteProbe (hd : d.Parsed) {probeId : JsString} {scope : ResourceScope}
    (h : d.deleteProbe db b probeId scope = some d') : d'.Parsed := by
  have hdeleted : Parsed { d with probes := d.probes.deleteProbe probeId scope } :=
    { hd with
      probes := hd.probes.deleteWhere _
      events := hd.events.deleteWhere _
      statuses := hd.statuses.deleteWhere _ }
  exact (hdeleted.insertVersions (array_self.mp hb.serviceVersions)).native hb h

/-- The rings of the probes are deleted first and written anew. -/
theorem writeEvents (hd : d.Parsed) {probeIds : List JsString} {scope : ResourceScope}
    (h : d.writeEvents db b probeIds scope = some d') : d'.Parsed := by
  simp only [Tables.writeEvents, Option.bind_eq_bind, Option.bind_eq_some_iff] at h
  obtain ⟨d₁, h₁, h⟩ := h
  have hdeleted : Parsed { d with probes := d.probes.deleteEvents probeIds scope.tenantId } :=
    { hd with events := hd.events.deleteWhere _ }
  have hd₁ : d₁.Parsed :=
    hdeleted.insertEvents (fun e he => array_self.mp hb.events e (List.mem_of_mem_filter he)) h₁
  exact hd₁.insertStatuses (fun e he => array_self.mp hb.statuses e (List.mem_of_mem_filter he)) h

theorem persistIngest (hd : d.Parsed) {input : IngestInput} {scope : ResourceScope}
    (h : d.persistIngest db b input scope = some d') : d'.Parsed :=
  (hd.insertServices fun r hr => array_self.mp hb.services r (List.mem_of_mem_filter hr)).writeEvents hb h

theorem persistNativeAgent (hd : d.Parsed) {agentId : JsString} {scope : ResourceScope}
    (h : d.persistNativeAgent db b agentId scope = some d') : d'.Parsed :=
  hd.insertNativeState (fun a ha => array_self.mp hb.nativeAgents a (List.mem_of_mem_filter ha))
    (fun _ h => by cases h) (fun _ h => by cases h)
    (fun v hv => array_self.mp hb.nativeAssignmentVersions v (List.mem_of_mem_filter hv)) h

/-- The instances of the agent are replaced, and the services without one deleted. -/
theorem persistNativeInstances (hd : d.Parsed) {agentId : JsString} {scope : ResourceScope}
    (h : d.persistNativeInstances db b agentId scope = some d') : d'.Parsed := by
  simp only [Tables.persistNativeInstances, Option.bind_eq_bind, Option.bind_eq_some_iff, Option.pure_def,
    Option.some.injEq] at h
  obtain ⟨d₁, h₁, d₂, h₂, h⟩ := h
  have hd₁ : d₁.Parsed := hd.persistNativeAgent hb h₁
  have hdeleted : Parsed { d₁ with native := d₁.native.deleteInstances agentId scope } :=
    { hd₁ with instances := hd₁.instances.deleteWhere _ }
  have hd₂ : d₂.Parsed := hdeleted.insertNativeState (fun _ h => by cases h)
    (fun i hi => array_self.mp hb.nativeInstances i (List.mem_of_mem_filter hi)) (fun _ h => by cases h)
    (fun _ h => by cases h) h₂
  -- deletions cannot break what holds of every row
  have hservices : Parsed (deleteNativeServices scope
      { d₂ with native := d₂.native.deleteStatuses agentId scope }) :=
    { hd₂ with
      nativeStatuses := hd₂.nativeStatuses.deleteWhere _
      services := hd₂.services.deleteWhere _ }
  rw [← h]
  exact hservices.insertServices fun r hr => array_self.mp hb.services r (List.mem_of_mem_filter hr)

theorem persistNativeIngest (hd : d.Parsed) {input : NativeIngestEnvelope} {scope : ResourceScope}
    (h : d.persistNativeIngest db b input scope = some d') : d'.Parsed := by
  simp only [Tables.persistNativeIngest, Option.bind_eq_bind, Option.bind_eq_some_iff] at h
  obtain ⟨d₁, h₁, h⟩ := h
  have hservices : (d.insertServices (b.services.filter fun r =>
      r.serviceId = input.serviceId && r.scope = scope)).Parsed :=
    hd.insertServices fun r hr => array_self.mp hb.services r (List.mem_of_mem_filter hr)
  have hd₁ : d₁.Parsed := hservices.insertNativeState
    (fun a ha => array_self.mp hb.nativeAgents a (List.mem_of_mem_filter ha)) (fun _ h => by cases h)
    (fun e he => array_self.mp hb.nativeStatuses e (List.mem_of_mem_filter he))
    (fun v hv => array_self.mp hb.nativeAssignmentVersions v (List.mem_of_mem_filter hv)) h₁
  exact hd₁.writeEvents hb h

end

end Parsed

/-- The set that is written is the one the snapshot was taken of. -/
theorem Parsed.persistSourceMapSet (hd : d.Parsed) {s : BrokerState} (hs : Indexed s) {k : JsString} {set : SourceMapSet}
    (hset : s.sourceMapSets.get? k = some set) {now : ℕ} (hb : s.snapshot now = some b) :
    (d.persistSourceMapSet set b).Parsed := by
  refine { hd with sourceMapSets := (hd.sourceMapSets.overwriteAll fun e he => ?_).deleteWhere _ }
  obtain rfl := List.mem_singleton.mp he
  have hmem : sourceMapSetEntry set ∈ (s.snapshotData now).sourceMapSets :=
    List.mem_map_of_mem (JsMap.mem_values_iff.mpr ⟨k, JsMap.get?_eq_some_iff.mp hset⟩)
  obtain ⟨q, -, hq⟩ := exists_of_array (snapshotSchema_eq_some.mp hb).sourceMapSets hmem
  rw [(hs.sourceMapSets k set hset).kept hq] at hq
  exact hq

/-! ### Restoring -/

theorem mem_orderBy {α : Type*} {columns : α → List JsString} {rows : List α} {row : α} :
    row ∈ db.orderBy columns rows ↔ row ∈ rows := List.mem_mergeSort

/-- The two parts of a probe that its row is found by. -/
theorem parts_of_storedProbe {p : StoredProbe} (h : storedProbeSchema p = some p) :
    resourceScopeSchema p.scope = some p.scope ∧ probeDefinitionSchema p.probe = some p.probe := by
  simp only [storedProbeSchema, Option.bind_eq_bind, Option.bind_eq_some_iff, Option.pure_def, Option.some.injEq] at h
  obtain ⟨scope, hscope, probe, hprobe, _, -, h⟩ := h
  obtain rfl : scope = p.scope := by rw [← h]
  obtain rfl : probe = p.probe := by rw [← h]
  exact ⟨hscope, hprobe⟩

/-- **What is restored is read as it stands.** -/
theorem Parsed.stored (hd : d.Parsed) {now : ℕ} (hnow : IsoDate.isDatetime (IsoDate.toISOString now) = true) :
    Reads (d.stored db now) where
  savedAt := refine_self.mpr hnow
  probes := array_self.mpr fun p hp => hd.probes p (mem_orderBy.mp hp)
  serviceVersions := array_self.mpr fun v hv => hd.serviceVersions v (mem_orderBy.mp hv)
  events := array_self.mpr fun entry hentry => by
    obtain ⟨p, hp, rfl⟩ := List.mem_map.mp hentry
    obtain ⟨hscope, hprobe⟩ := parts_of_storedProbe (hd.probes p (mem_orderBy.mp hp))
    -- the events of a ring, in the order of their numbers
    have hvalues : array probeEventSchema (d.ringOf p).values = some (d.ringOf p).values := by
      refine array_self.mpr fun event hevent => ?_
      obtain ⟨row, hrow, rfl⟩ := List.mem_map.mp hevent
      exact hd.events row (List.mem_of_mem_filter (List.mem_mergeSort.mp hrow))
    simp only [ringEntrySchema, ringOf] at hvalues ⊢
    simp only [hscope, probeId_of_parsed hprobe, hvalues, Option.bind_eq_bind, Option.bind_some, Option.pure_def]
  services := array_self.mpr fun r hr => hd.services r (mem_orderBy.mp hr)
  statuses := array_self.mpr fun entry hentry => by
    obtain ⟨row, hrow, hentry⟩ := List.mem_filterMap.mp hentry
    obtain ⟨p, hp, rfl⟩ := Option.map_eq_some_iff.mp hentry
    obtain ⟨hscope, -⟩ := parts_of_storedProbe (hd.probes.get? hp)
    obtain ⟨hid, hvalue⟩ := hd.statuses row (mem_orderBy.mp hrow)
    simp only [statusEntrySchema, hscope, hid, hvalue, Option.bind_eq_bind, Option.bind_some, Option.pure_def]
  sourceMapSets := array_self.mpr fun entry hentry => by
    obtain ⟨e, he, rfl⟩ := List.mem_map.mp hentry
    have hread := hd.sourceMapSets e (mem_orderBy.mp he)
    simp only [sourceMapSetSchema, Option.bind_eq_bind, Option.bind_eq_some_iff, Option.pure_def,
      Option.some.injEq] at hread
    obtain ⟨scope, hscope, serviceId, hservice, commitSha, hcommit, updatedAt, hupdated, maps, hmaps, hread⟩ := hread
    obtain rfl : scope = e.scope := by rw [← hread]
    obtain rfl : serviceId = e.serviceId := by rw [← hread]
    obtain rfl : commitSha = e.commitSha := by rw [← hread]
    obtain rfl : updatedAt = e.updatedAt := by rw [← hread]
    obtain rfl : maps = e.maps := by rw [← hread]
    -- the maps are read back sorted by their paths
    have hsorted : array storedSourceMapSchema (db.orderBy (fun m => [m.mapPath]) e.maps) =
        some (db.orderBy (fun m => [m.mapPath]) e.maps) :=
      array_self.mpr fun m hm => array_self.mp hmaps m (mem_orderBy.mp hm)
    simp only [sourceMapSetSchema, hscope, hservice, hcommit, hupdated, hsorted, Option.bind_eq_bind, Option.bind_some,
      Option.pure_def]
  nativeAgents := array_self.mpr fun a ha => hd.agents a (mem_orderBy.mp ha)
  nativeInstances := array_self.mpr fun i hi => hd.instances i (mem_orderBy.mp hi)
  nativeStatuses := array_self.mpr hd.nativeStatuses
  nativeAssignmentVersions := array_self.mpr hd.assignmentVersions

/-- A database all of whose rows pass is restored. -/
theorem Parsed.restore (hd : d.Parsed) (cfg : Config) {now : ℕ} (hnow : now < IsoDate.year10000) :
    d.restore cfg db now = some (({} : BrokerState).replaceWithSnapshot cfg now (d.stored db now)) := by
  have hread : snapshotSchema (d.stored db now) = some (d.stored db now) :=
    snapshotSchema_eq_some.mpr (hd.stored (IsoDate.isDatetime_toISOString hnow))
  rw [Tables.restore, loadSnapshot, hread]

/-- A restore that does not throw has read what is stored. -/
theorem Parsed.of_restore (hd : d.Parsed) {cfg : Config} {now : ℕ} {s : BrokerState} (h : d.restore cfg db now = some s) :
    s = ({} : BrokerState).replaceWithSnapshot cfg now (d.stored db now) ∧ Reads (d.stored db now) := by
  rw [Tables.restore, loadSnapshot] at h
  rcases hread : snapshotSchema (d.stored db now) with - | b
  · rw [hread] at h
    cases h
  · have hsaved := (refine_eq_some.mp (snapshotSchema_eq_some.mp hread).savedAt).1
    have hreads : Reads (d.stored db now) := hd.stored hsaved
    rw [snapshotSchema_eq_some.mpr hreads] at h
    exact ⟨(Option.some.inj h).symm, hreads⟩

/-! ### Probes and versions -/

/-- The tables a poll is answered from, but for the source maps. -/
def core (d : Tables) :
    (Table fun p : StoredProbe => p.probe.id) × Table fun v : ScopedServiceVersion => (v.scope, v.serviceId) :=
  (d.probes.probes, d.serviceVersions)

theorem core_insertEvents {entries : List RingEntry} (h : d.insertEvents entries = some d') : d'.core = d.core := by
  unfold Tables.insertEvents ProbeTables.insertEvents at h
  dsimp only at h
  split at h
  · cases h
    rfl
  · cases h

theorem core_insertStatuses {entries : List StatusEntry} (h : d.insertStatuses db entries = some d') : d'.core = d.core := by
  unfold Tables.insertStatuses ProbeTables.insertStatuses at h
  dsimp only at h
  split at h
  · cases h
    rfl
  · cases h

theorem core_insertNativeState (h : d.insertNativeState db b = some d') : d'.core = d.core := by
  unfold Tables.insertNativeState NativeTables.insertNativeState at h
  dsimp only at h
  split at h
  · cases h
    rfl
  · cases h

theorem core_writeEvents {probeIds : List JsString} {scope : ResourceScope}
    (h : d.writeEvents db b probeIds scope = some d') : d'.core = d.core := by
  simp only [Tables.writeEvents, Option.bind_eq_bind, Option.bind_eq_some_iff] at h
  obtain ⟨d₁, h₁, h⟩ := h
  rw [core_insertStatuses h, core_insertEvents h₁]
  rfl

theorem core_persistIngest {input : IngestInput} {scope : ResourceScope}
    (h : d.persistIngest db b input scope = some d') : d'.core = d.core := (core_writeEvents h).trans rfl

theorem core_persistNativeAgent {agentId : JsString} {scope : ResourceScope}
    (h : d.persistNativeAgent db b agentId scope = some d') : d'.core = d.core :=
  (core_insertNativeState h).trans rfl

theorem core_persistNativeInstances {agentId : JsString} {scope : ResourceScope}
    (h : d.persistNativeInstances db b agentId scope = some d') : d'.core = d.core := by
  simp only [Tables.persistNativeInstances, Option.bind_eq_bind, Option.bind_eq_some_iff, Option.pure_def,
    Option.some.injEq] at h
  obtain ⟨d₁, h₁, d₂, h₂, rfl⟩ := h
  have h₂ : d₂.core = d₁.core := (core_insertNativeState h₂).trans rfl
  exact h₂.trans (core_persistNativeAgent h₁)

theorem core_persistNativeIngest {input : NativeIngestEnvelope} {scope : ResourceScope}
    (h : d.persistNativeIngest db b input scope = some d') : d'.core = d.core := by
  simp only [Tables.persistNativeIngest, Option.bind_eq_bind, Option.bind_eq_some_iff] at h
  obtain ⟨d₁, h₁, h⟩ := h
  have h₁ : d₁.core = d.core := (core_insertNativeState h₁).trans rfl
  exact (core_writeEvents h).trans h₁

/-- A whole snapshot writes both tables. -/
theorem core_persist (h : d.persist db b = some d') :
    d'.core = (d.probes.probes.upsertAll .overwrite b.probes, d.serviceVersions.upsertAll .overwrite b.serviceVersions) := by
  simp only [Tables.persist, Option.bind_eq_bind, Option.bind_eq_some_iff] at h
  obtain ⟨d₁, h₁, d₂, h₂, h⟩ := h
  have hcore := (core_insertStatuses h₂).trans (core_insertEvents h₁)
  rw [core_insertNativeState h, core]
  exact congrArg (fun c => (c.1, c.2.upsertAll .overwrite b.serviceVersions)) hcore

/-- A deletion takes the probe away and writes every version. -/
theorem core_deleteProbe {probeId : JsString} {scope : ResourceScope} (h : d.deleteProbe db b probeId scope = some d') :
    d'.core = (d.probes.probes.deleteWhere fun p => p.probe.id = probeId && p.scope = scope,
      d.serviceVersions.upsertAll .overwrite b.serviceVersions) :=
  core_insertNativeState h

/-- A probe is written with the version of its own service alone. -/
theorem core_persistProbe {probeId : JsString} {scope : ResourceScope} {p : StoredProbe} {rest : List StoredProbe}
    (hfilter : (b.probes.filter fun p => p.probe.id = probeId && p.scope = scope) = p :: rest)
    (h : d.persistProbe db b probeId scope = some d') :
    d'.core = (d.probes.probes.upsertAll .overwrite (p :: rest), d.serviceVersions.upsertAll .overwrite
      (b.serviceVersions.filter fun v => v.serviceId = p.probe.serviceId && v.scope = scope)) := by
  unfold Tables.persistProbe at h
  rw [hfilter] at h
  exact core_insertNativeState h

end Tables
