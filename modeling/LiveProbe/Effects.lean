/-
LiveProbe/Effects.lean

Which maps the methods write, and what they write there.

A method that looks something up and may do nothing is described by an
equation for the state it leaves: the old state with the maps it writes
replaced.  Whatever speaks of other maps is then unchanged by definition, and a
property of one map needs only the entries that are set.
-/
import LiveProbe.Changes

open JsString Broker BrokerState

namespace BrokerState

variable {cfg : Config} {now : ℕ} {scope : ResourceScope} {s : BrokerState}

/-! ### Services -/

theorem refreshServiceCapabilities_eq (now : ℕ) (scope : ResourceScope) (serviceId : JsString)
    (s : BrokerState) :
    s.refreshServiceCapabilities now scope serviceId = s ∨
      ∃ service reports, s.services.get? (serviceKey scope serviceId) = some service ∧
        (reports = s.agentCapabilityReports ∨
          ∃ old, s.agentCapabilityReports.get? (serviceKey scope serviceId) = some old ∧
            reports = s.agentCapabilityReports.set (serviceKey scope serviceId)
              (activeReports now old)) ∧
        s.refreshServiceCapabilities now scope serviceId =
          { s with
            services := s.services.set (serviceKey scope serviceId)
              { service with capabilities := some (s.activeCapabilities now scope serviceId) }
            agentCapabilityReports := reports } := by
  unfold refreshServiceCapabilities
  rcases hg : s.services.get? (serviceKey scope serviceId) with - | service
  · exact Or.inl rfl
  rcases hr : s.agentCapabilityReports.get? (serviceKey scope serviceId) with - | old
  · exact Or.inr ⟨service, _, rfl, Or.inl rfl, rfl⟩
  · exact Or.inr ⟨service, _, rfl, Or.inr ⟨old, rfl, rfl⟩, rfl⟩

theorem touchNativeService_eq (now : ℕ) (scope : ResourceScope) (input : NativeIngestEnvelope)
    (s : BrokerState) :
    s.touchNativeService now scope input = s ∨
      ∃ service, s.services.get? (serviceKey scope input.serviceId) = some service ∧
        s.touchNativeService now scope input =
          { s with
            services := s.services.set (serviceKey scope input.serviceId)
              { service with
                lastSeen := IsoDate.toISOString now, agentStatus := some input.agentStatus } } := by
  unfold touchNativeService
  rcases hg : s.services.get? (serviceKey scope input.serviceId) with - | service
  · exact Or.inl rfl
  · exact Or.inr ⟨service, rfl, rfl⟩

/-- The groups of a list of instances: each is a non-empty part of the list,
all of one service. -/
theorem groupByService_spec (l : List NativeInstanceRecord) :
    (groupByService l).All fun serviceId group =>
      group ≠ [] ∧ ∀ i ∈ group, i ∈ l ∧ i.serviceId = serviceId := by
  suffices ∀ (rest : List NativeInstanceRecord) (m : JsMap JsString (List NativeInstanceRecord)),
      (∀ i ∈ rest, i ∈ l) →
      m.All (fun serviceId group => group ≠ [] ∧ ∀ i ∈ group, i ∈ l ∧ i.serviceId = serviceId) →
      (rest.foldl (fun grouped i =>
        grouped.set i.serviceId ((grouped.get? i.serviceId).getD [] ++ [i])) m).All
        fun serviceId group => group ≠ [] ∧ ∀ i ∈ group, i ∈ l ∧ i.serviceId = serviceId from
    this l ∅ (fun _ h => h) .empty
  intro rest
  induction rest with
  | nil => exact fun m _ hm => hm
  | cons i rest ih =>
    intro m hmem hm
    rw [List.foldl_cons]
    refine ih _ (fun j hj => hmem j (List.mem_cons_of_mem _ hj)) (hm.set ⟨by simp, ?_⟩)
    intro j hj
    rcases List.mem_append.mp hj with hj | hj
    · rcases hg : m.get? i.serviceId with - | group
      · simp [hg] at hj
      · rw [hg] at hj
        exact (hm _ _ hg).2 j hj
    · obtain rfl := List.mem_singleton.mp hj
      exact ⟨hmem _ List.mem_cons_self, rfl⟩

/-- The service records after a rebuild: old ones, and those of the groups. -/
theorem services_rebuildNativeServices {P : JsString → ServiceRecord → Prop}
    (hs : s.services.All P)
    (hg : ∀ serviceId group record, group ≠ [] →
      (∀ i ∈ group, i ∈ s.nativeInstances.values ∧ i.scope = scope ∧ i.serviceId = serviceId) →
      nativeServiceRecord scope serviceId group = some record →
      P (serviceKey scope serviceId) record) :
    (s.rebuildNativeServices scope).services.All P := by
  unfold rebuildNativeServices
  simp only
  refine JsMap.All.foldl (fun m e he hm => ?_) (hs.filter _)
  obtain ⟨hne, hmem⟩ := groupByService_spec _ e.1 e.2 (JsMap.get?_eq_some_iff.mpr he)
  rcases hr : nativeServiceRecord scope e.1 e.2 with - | record
  · exact hm
  · refine hm.set (hg e.1 e.2 record hne (fun i hi => ?_) hr)
    obtain ⟨hi, hid⟩ := hmem i hi
    obtain ⟨hv, hsc⟩ := List.mem_filter.mp hi
    exact ⟨hv, by simpa using hsc, hid⟩

/-! ### Source maps -/

theorem clearForeignMaps_eq (now : ℕ) (key uploaderId : JsString) (s : BrokerState) :
    s.clearForeignMaps now key uploaderId = s ∨
      ∃ set, s.sourceMapSets.get? key = some set ∧
        s.clearForeignMaps now key uploaderId =
          { s with
            sourceMapSets := s.sourceMapSets.set key
              { set with maps := ∅, updatedAt := IsoDate.toISOString now } } := by
  unfold clearForeignMaps
  rcases hg : s.sourceMapSets.get? key with - | set
  · exact Or.inl rfl
  dsimp only
  split
  · exact Or.inl rfl
  · exact Or.inr ⟨set, rfl, rfl⟩

/-- Dropping sets deletes their keys from the sets and from the leases. -/
theorem dropSourceMaps_eq (keys : List JsString) (s : BrokerState) :
    s.dropSourceMaps keys =
      { s with
        sourceMapSets := keys.foldl JsMap.delete s.sourceMapSets
        sourceMapLeases := keys.foldl JsMap.delete s.sourceMapLeases } := by
  unfold dropSourceMaps
  induction keys generalizing s with
  | nil => rfl
  | cons key keys ih => rw [List.foldl_cons, ih]; rfl

/-! ### Events and statuses -/

theorem ingestEvent_eq (cfg : Config) (s : BrokerState) (e : ProbeEvent) :
    ∃ statuses, (statuses = s.statuses ∨
        ∃ status, s.ingestedStatus e = some status ∧
          statuses = s.statuses.set e.probeId status) ∧
      s.ingestEvent cfg e = { s.appendEvent cfg e with statuses } := by
  have hi : (s.appendEvent cfg e).ingestedStatus e = s.ingestedStatus e := rfl
  simp only [ingestEvent]
  rw [hi]
  rcases s.ingestedStatus e with - | status
  · exact ⟨_, Or.inl rfl, rfl⟩
  · exact ⟨_, Or.inr ⟨status, rfl, rfl⟩, rfl⟩

theorem deriveNativeLogicalStatus_eq (id : JsString) (scope : ResourceScope) (s : BrokerState) :
    ∃ statuses, (statuses = s.statuses ∨
        ∃ stored status, s.ownProbe id scope = some stored ∧ stored.expired = false ∧
          s.derivedStatus scope stored id = some status ∧
          statuses = s.statuses.set id status) ∧
      s.deriveNativeLogicalStatus id scope = { s with statuses } := by
  unfold deriveNativeLogicalStatus
  rcases ho : s.ownProbe id scope with - | stored
  · exact ⟨_, Or.inl rfl, rfl⟩
  by_cases hx : stored.expired = true
  · exact ⟨_, Or.inl rfl, by simp only [hx, if_true]⟩
  rw [Bool.not_eq_true] at hx
  rcases hd : s.derivedStatus scope stored id with - | status
  · exact ⟨_, Or.inl rfl, by simp only [hx, hd]; rfl⟩
  · exact ⟨_, Or.inr ⟨stored, status, rfl, hx, hd, rfl⟩, by simp only [hx, hd]; rfl⟩

/-- The key a native event's status is recorded under. -/
def statusKeyOf (scope : ResourceScope) (input : NativeIngestEnvelope) (e : ProbeEvent) :
    JsString :=
  nativeStatusKey scope e.probeId (e.probeVersion.getD 0) input.agentId input.instanceId
    input.buildId

/-- Whether a status is the first under its key to end the assignment. -/
def latches (s : BrokerState) (key : JsString) (status : ProbeStatus) : Bool :=
  nativeStatusEndsAssignment status.status &&
    !((s.nativeStatuses.get? key).any fun p => nativeStatusEndsAssignment p.status)

/-- The state in which a native status has been recorded, its logical status
not yet derived. -/
def withNativeStatus (scope : ResourceScope) (input : NativeIngestEnvelope) (key : JsString)
    (status : ProbeStatus) (s : BrokerState) : BrokerState :=
  { s with
    nativeStatuses := s.nativeStatuses.set key status
    nativeAssignmentVersions :=
      if s.latches key status then
        bumpNativeAssignmentVersion scope s.nativeAssignmentVersions input.agentId
      else s.nativeAssignmentVersions }

theorem ingestNativeEvent_eq (cfg : Config) (scope : ResourceScope) (input : NativeIngestEnvelope)
    (s : BrokerState) (e : ProbeEvent) :
    s.ingestNativeEvent cfg scope input e = s.appendEvent cfg e ∨
      ∃ status, nativeStatusOf e = some status ∧
        (s.nativeStatuses.get? (statusKeyOf scope input e)).any (keepsPrevious status) = false ∧
        s.ingestNativeEvent cfg scope input e =
          ((s.appendEvent cfg e).withNativeStatus scope input (statusKeyOf scope input e)
            status).deriveNativeLogicalStatus e.probeId scope := by
  simp only [ingestNativeEvent]
  rcases hn : nativeStatusOf e with - | status
  · exact Or.inl rfl
  simp only [recordNativeStatus]
  split
  · exact Or.inl rfl
  · next hk =>
    rw [Bool.not_eq_true] at hk
    exact Or.inr ⟨status, rfl, hk, rfl⟩

/-! ### Native agents -/

theorem registerNativeAgent_eq {input : NativeAgentRegistration} {record : NativeAgentRecord}
    (parsed : persistedNativeAgentSchema
      { toNativeAgentRegistration := input, scope, lastSeen := IsoDate.toISOString now } =
        some record) :
    (s.registerNativeAgent now input scope).1 =
      { s with
        nativeAgents := s.nativeAgents.set (nativeAgentKey scope input.agentId) record
        nativeAssignmentVersions :=
          if s.nativeAssignmentVersions.has (nativeAgentKey scope input.agentId) then
            s.nativeAssignmentVersions
          else s.nativeAssignmentVersions.set (nativeAgentKey scope input.agentId) 0 } := by
  simp only [registerNativeAgent, parsed]

/-- Storing instances writes the instances only, each under its key. -/
theorem setInstances_eq (scope : ResourceScope) (agent : NativeAgentRecord) (agentId : JsString)
    (l : List NativeInstance) (s : BrokerState) :
    ∃ m, (s.setInstances scope agent agentId l).1 = { s with nativeInstances := m } ∧
      ∀ P : JsString → NativeInstanceRecord → Prop, s.nativeInstances.All P →
        (∀ i ∈ l, ∀ record,
          persistedNativeInstanceSchema (instanceRecord scope agent agentId i) = some record →
          P (nativeInstanceKey scope agentId i.instanceId) record) → m.All P := by
  induction l generalizing s with
  | nil => exact ⟨_, rfl, fun P hs _ => hs⟩
  | cons i l ih =>
    unfold setInstances
    rcases hr : persistedNativeInstanceSchema (instanceRecord scope agent agentId i) with - | record
    · exact ⟨_, rfl, fun P hs _ => hs⟩
    · obtain ⟨m, he, hm⟩ := ih
        { s with
          nativeInstances := s.nativeInstances.set (nativeInstanceKey scope agentId i.instanceId)
            record }
      refine ⟨m, he, fun P hs hP => hm P (hs.set (hP i List.mem_cons_self record hr)) ?_⟩
      exact fun j hj => hP j (List.mem_cons_of_mem _ hj)

/-- What a replacement writes: the instances, and unless it stops at a record
the rest of `settleInstances`. -/
theorem replaceNativeInstances_eq {agentId : JsString} {instances : List NativeInstance}
    {allowed : List JsString} {agent : NativeAgentRecord}
    (registered : s.nativeAgents.get? (nativeAgentKey scope agentId) = some agent)
    (checked : checkInstances (s.ownedByAnother scope agentId) allowed [] instances = .ok ()) :
    let t := (s.dropInstances scope agentId (instances.map (·.instanceId))).setInstances scope agent
      agentId instances
    let previous := (s.agentInstances scope agentId).map
      fun i => nativeAttachmentIdentity i.toNativeInstance []
    let next := instances.map fun i => nativeAttachmentIdentity i agent.capabilities
    (s.replaceNativeInstances now agentId instances scope allowed).1 =
      match t.2 with
      | .error _ => t.1
      | .ok () => t.1.settleInstances now scope agent agentId (!previous.isPerm next) := by
  intro t previous next
  have ht : (s.dropInstances scope agentId (instances.map (·.instanceId))).setInstances scope agent
      agentId instances = t := rfl
  simp only [replaceNativeInstances, registered, checked, ht]
  rcases t with ⟨u, e | ⟨⟩⟩ <;> rfl

theorem replaceNativeInstances_frame (now : ℕ) {agentId : JsString} {instances : List NativeInstance}
    {allowed : List JsString} {agent : NativeAgentRecord}
    (registered : s.nativeAgents.get? (nativeAgentKey scope agentId) = some agent)
    (checked : checkInstances (s.ownedByAnother scope agentId) allowed [] instances = .ok ()) :
    ∃ nativeInstances nativeAgents nativeAssignmentVersions services,
      (s.replaceNativeInstances now agentId instances scope allowed).1 =
        { s with nativeInstances, nativeAgents, nativeAssignmentVersions, services } := by
  rw [replaceNativeInstances_eq registered checked]
  obtain ⟨m, hm, -⟩ := setInstances_eq scope agent agentId instances
    (s.dropInstances scope agentId (instances.map (·.instanceId)))
  generalize (s.dropInstances scope agentId (instances.map (·.instanceId))).setInstances scope agent
    agentId instances = t at hm ⊢
  obtain ⟨u, e | ⟨⟩⟩ := t
  · obtain rfl := hm
    exact ⟨_, _, _, _, rfl⟩
  · obtain rfl := hm
    exact ⟨_, _, _, _, rfl⟩

/-! ### What most changes leave alone -/

/-- The probes, the instances and what is known of them are as they were. -/
structure KeepsProbes (s t : BrokerState) : Prop where
  probes : t.probes = s.probes
  statuses : t.statuses = s.statuses
  nativeInstances : t.nativeInstances = s.nativeInstances
  nativeStatuses : t.nativeStatuses = s.nativeStatuses
  recentlyRemovedProbes : t.recentlyRemovedProbes = s.recentlyRemovedProbes

/-- The changes that write these maps. -/
inductive ProbeChange (cfg : Config) (now : ℕ) (scope : ResourceScope) (r : Request) (s : BrokerState) :
    BrokerState → Prop
  | expire : ProbeChange cfg now scope r s (s.expireDueProbes cfg now)
  | create (draws : ℕ → JsString) (input : CreateProbeInput) (compiled : CompiledInput) (id : JsString)
      (probe : ProbeDefinition) (isCreate : r = .createProbe draws input)
      (compiles : compileProbeInput cfg.jsep input = .ok compiled) (drawn : s.drawProbeId draws = some id)
      (parsed : Protocol.probeDefinitionSchema (newDefinition compiled id
        (s.serviceVersion scope input.serviceId + 1)) = some probe) :
      ProbeChange cfg now scope r s ((s.incrementServiceVersion input.serviceId scope).insertProbe now scope probe)
  | delete (id : JsString) (stored : StoredProbe) (isDelete : r = .deleteProbe id)
      (found : s.probes.get? id = some stored) (own : stored.scope = scope) (t : BrokerState)
      (same : KeepsProbes s t) : ProbeChange cfg now scope r s (t.removeProbe now id)
  | event (input : IngestInput) (e : ProbeEvent) (isIngest : r = .ingest input) (mem : e ∈ input.events) :
      ProbeChange cfg now scope r s (s.ingestEvent cfg e)
  | replace (agentId : JsString) (instances : List NativeInstance) (allowed : List JsString)
      (agent : NativeAgentRecord) (isReplace : r = .replaceNativeInstances agentId instances allowed)
      (registered : s.nativeAgents.get? (nativeAgentKey scope agentId) = some agent)
      (checked : checkInstances (s.ownedByAnother scope agentId) allowed [] instances = .ok ()) :
      ProbeChange cfg now scope r s (s.replaceNativeInstances now agentId instances scope allowed).1
  | prune : ProbeChange cfg now scope r s (s.pruneRemovedProbes now)
  | nativeEvent (input : NativeIngestEnvelope) (stored : StoredProbe) (e : ProbeEvent)
      (isIngest : r = .ingestNative input) (mem : e ∈ input.events)
      (found : s.probes.get? e.probeId = some stored)
      (checked : checkNativeEvent input scope stored e = .ok ()) :
      ProbeChange cfg now scope r s (s.ingestNativeEvent cfg scope input e)

/-- A change leaves these maps alone, or is one of those that write them. -/
theorem keepsProbes_or {r : Request} {t : BrokerState} (h : Change cfg now scope r s t) :
    KeepsProbes s t ∨ ProbeChange cfg now scope r s t := by
  cases h with
  | expire => exact .inr .expire
  | create draws input compiled id probe isCreate compiles drawn parsed =>
    exact .inr (.create draws input compiled id probe isCreate compiles drawn parsed)
  | deleteExpired id stored isDelete found own =>
    exact .inr (.delete id stored isDelete found own s ⟨rfl, rfl, rfl, rfl, rfl⟩)
  | deleteLive id stored isDelete found own =>
    exact .inr (.delete id stored isDelete found own _ ⟨rfl, rfl, rfl, rfl, rfl⟩)
  | event input e isIngest mem => exact .inr (.event input e isIngest mem)
  | replace agentId instances allowed agent isReplace registered checked =>
    exact .inr (.replace agentId instances allowed agent isReplace registered checked)
  | prune => exact .inr .prune
  | nativeEvent input i stored e isIngest mem inst target found checked =>
    exact .inr (.nativeEvent input stored e isIngest mem found checked)
  | refresh serviceId =>
    left
    rcases refreshServiceCapabilities_eq now scope serviceId s with h | ⟨_, _, _, _, h⟩
    · rw [h]
      exact ⟨rfl, rfl, rfl, rfl, rfl⟩
    · rw [h]
      exact ⟨rfl, rfl, rfl, rfl, rfl⟩
  | claim serviceId commitSha uploaderId =>
    left
    rcases clearForeignMaps_eq now (sourceMapKey scope serviceId commitSha) uploaderId s with h | ⟨_, _, h⟩
    · rw [h]
      exact ⟨rfl, rfl, rfl, rfl, rfl⟩
    · rw [h]
      exact ⟨rfl, rfl, rfl, rfl, rfl⟩
  | complete serviceId commitSha uploaderId _ marked =>
    left
    rw [dropSourceMaps_eq, marked]
    exact ⟨rfl, rfl, rfl, rfl, rfl⟩
  | register input record _ parsed =>
    left
    rw [registerNativeAgent_eq parsed]
    exact ⟨rfl, rfl, rfl, rfl, rfl⟩
  | touchNative input =>
    left
    rcases touchNativeService_eq now scope input s with h | ⟨_, _, h⟩
    · rw [h]
      exact ⟨rfl, rfl, rfl, rfl, rfl⟩
    · rw [h]
      exact ⟨rfl, rfl, rfl, rfl, rfl⟩
  | _ => exact .inl ⟨rfl, rfl, rfl, rfl, rfl⟩

/-! ### Probes and native statuses -/

/-- The probes change by expiry, by a creation or by a deletion. -/
theorem probes_change {r : Request} {t : BrokerState} (h : Change cfg now scope r s t) :
    t.probes = s.probes ∨ t = s.expireDueProbes cfg now ∨
      (∃ draws input compiled id probe, r = .createProbe draws input ∧
        compileProbeInput cfg.jsep input = .ok compiled ∧ s.drawProbeId draws = some id ∧
        Protocol.probeDefinitionSchema (newDefinition compiled id
          (s.serviceVersion scope input.serviceId + 1)) = some probe ∧
        t = (s.incrementServiceVersion input.serviceId scope).insertProbe now scope probe) ∨
      ∃ id stored, r = .deleteProbe id ∧ s.probes.get? id = some stored ∧ stored.scope = scope ∧
        t.probes = s.probes.delete id := by
  rcases keepsProbes_or h with hsame | hc
  · exact .inl hsame.probes
  cases hc with
  | expire => exact .inr (.inl rfl)
  | create draws input compiled id probe isCreate compiles drawn parsed =>
    exact .inr (.inr (.inl ⟨draws, input, compiled, id, probe, isCreate, compiles, drawn, parsed, rfl⟩))
  | delete id stored isDelete found own t hsame =>
    exact .inr (.inr (.inr ⟨id, stored, isDelete, found, own, congrArg (JsMap.delete · id) hsame.probes⟩))
  | event input e =>
    left
    obtain ⟨_, _, h⟩ := ingestEvent_eq cfg s e
    rw [h]
    rfl
  | replace agentId instances allowed agent _ registered checked =>
    left
    obtain ⟨_, _, _, _, h⟩ := replaceNativeInstances_frame now registered checked
    rw [h]
  | prune => exact .inl rfl
  | nativeEvent input stored e => exact .inl (probes_ingestNativeEvent input s e)

/-- An event that passed its check is of a probe of the scope and names its
version. -/
theorem checkNativeEvent_eq_ok {input : NativeIngestEnvelope} {stored : StoredProbe}
    {e : ProbeEvent} (h : checkNativeEvent input scope stored e = .ok ()) :
    stored.scope = scope ∧ stored.probe.serviceId = input.serviceId ∧
      e.probeVersion = some stored.probe.version := by
  unfold checkNativeEvent at h
  split at h
  · cases h
  next hown =>
  split at h
  · cases h
  next hversion =>
  rw [not_or, not_or, not_not, not_not] at hown
  exact ⟨hown.1, hown.2.1, not_not.mp hversion⟩

/-- The native statuses change by an event that was checked. -/
theorem nativeStatuses_change {r : Request} {t : BrokerState} (h : Change cfg now scope r s t) :
    t.nativeStatuses = s.nativeStatuses ∨
      ∃ input e stored status, r = .ingestNative input ∧ e ∈ input.events ∧
        s.probes.get? e.probeId = some stored ∧ checkNativeEvent input scope stored e = .ok () ∧
        nativeStatusOf e = some status ∧
        (s.nativeStatuses.get? (statusKeyOf scope input e)).any (keepsPrevious status) = false ∧
        t.probes = s.probes ∧
        t.nativeStatuses = s.nativeStatuses.set (statusKeyOf scope input e) status := by
  rcases keepsProbes_or h with hsame | hc
  · exact .inl hsame.nativeStatuses
  cases hc with
  | expire =>
    left
    refine expireDueProbes_induction (P := fun t => t.nativeStatuses = s.nativeStatuses) rfl
      fun t e ht _ hdue => ?_
    rw [expireProbe, if_pos hdue]
    exact ht
  | create => exact .inl rfl
  | delete id stored _ _ _ t hsame => exact .inl hsame.nativeStatuses
  | event input e =>
    left
    obtain ⟨_, _, h⟩ := ingestEvent_eq cfg s e
    rw [h]
    rfl
  | replace agentId instances allowed agent _ registered checked =>
    left
    obtain ⟨_, _, _, _, h⟩ := replaceNativeInstances_frame now registered checked
    rw [h]
  | prune => exact .inl rfl
  | nativeEvent input stored e isIngest mem found checked =>
    rcases ingestNativeEvent_eq cfg scope input s e with h | ⟨status, hst, hkeep, h⟩
    · left
      rw [h]
      rfl
    · right
      obtain ⟨statuses, -, hd⟩ := deriveNativeLogicalStatus_eq e.probeId scope
        ((s.appendEvent cfg e).withNativeStatus scope input (statusKeyOf scope input e) status)
      refine ⟨input, e, stored, status, isIngest, mem, found, checked, hst, hkeep,
        probes_ingestNativeEvent input s e, ?_⟩
      rw [h, hd]
      rfl

end BrokerState
