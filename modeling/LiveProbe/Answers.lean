/-
LiveProbe/Answers.lean

What a rollback makes of the later answers.

A state that is `Alike` another but for what a snapshot forgets answers every
later request the same exactly when there was nothing of the kind to lose
(`Recoverable`): no service with capabilities, no live lease, no event that the
schema of a snapshot rewrites.
-/
import LiveProbe.Forget

open JsString Schema Broker Protocol BrokerState

namespace BrokerState

variable {cfg : Config} {now : ℕ} {scope : ResourceScope} {s t u : BrokerState}

/-! ### Capabilities -/

/-- The capabilities of the service under a key. -/
def capabilitiesAt (now : ℕ) (s : BrokerState) (k : JsString) : List JsString :=
  activeCapabilityIntersection now ((s.agentCapabilityReports.get? k).getD ∅)

/-- A record with the capabilities of its service. -/
def withCapabilities (now : ℕ) (s : BrokerState) (k : JsString) (r : ServiceRecord) :
    ServiceRecord :=
  { r with capabilities := some (s.capabilitiesAt now k) }

theorem activeReports_activeReports (now : ℕ) (reports : JsMap JsString AgentCapabilityReport) :
    activeReports now (activeReports now reports) = activeReports now reports := by
  simp only [activeReports, JsMap.filter_filter, Bool.and_self]

theorem capabilitiesAt_refresh (now : ℕ) (scope : ResourceScope) (serviceId k : JsString)
    (s : BrokerState) :
    (s.refreshServiceCapabilities now scope serviceId).capabilitiesAt now k =
      s.capabilitiesAt now k := by
  rcases refreshServiceCapabilities_eq now scope serviceId s with h | ⟨_, reports, -, hr, h⟩ <;>
    rw [h]
  rcases hr with rfl | ⟨old, hold, rfl⟩
  · rfl
  · simp only [capabilitiesAt, JsMap.get?_set]
    split
    · next hk =>
      rw [hk, hold, Option.getD_some, Option.getD_some, activeCapabilityIntersection,
        activeReports_activeReports]
      rfl
    · rfl

/-- A refresh rewrites the record of its service. -/
theorem services_refresh (now : ℕ) (scope : ResourceScope) (serviceId : JsString)
    (s : BrokerState) :
    (s.refreshServiceCapabilities now scope serviceId).services = s.services.mapVals fun k r =>
      if k = serviceKey scope serviceId then s.withCapabilities now k r else r := by
  unfold refreshServiceCapabilities
  rcases hg : s.services.get? (serviceKey scope serviceId) with - | service
  · refine (JsMap.mapVals_eq_self fun k r hk => if_neg ?_).symm
    rintro rfl
    rw [hg] at hk
    cases hk
  · dsimp only
    rw [JsMap.set_eq_mapVals hg fun r =>
      { r with capabilities := some (s.activeCapabilities now scope serviceId) }]
    congr 1
    funext k r
    split
    · next hk => rw [hk]; rfl
    · rfl

theorem services_foldl_refresh (now : ℕ) (scope : ResourceScope) (l : List ServiceRecord)
    (s : BrokerState) :
    (l.foldl (fun s r => s.refreshServiceCapabilities now scope r.serviceId) s).services =
      s.services.mapVals fun k r =>
        if k ∈ l.map fun r => serviceKey scope r.serviceId then s.withCapabilities now k r
        else r := by
  induction l generalizing s with
  | nil => exact (JsMap.mapVals_eq_self fun _ _ _ => by simp).symm
  | cons r l ih =>
    rw [List.foldl_cons, ih, services_refresh, JsMap.mapVals_mapVals]
    congr 1
    funext k r'
    simp only [List.map_cons, List.mem_cons, withCapabilities, capabilitiesAt_refresh]
    by_cases hk : k = serviceKey scope r.serviceId
    · simp [hk]
    · simp [hk]

/-- What `listServices` answers, computed from the records and the reports. -/
theorem listServices_answer (cfg : Config) (now : ℕ) (scope : ResourceScope)
    (h : ∀ k r, s.services.get? k = some r → k = serviceKey r.scope r.serviceId) :
    (s.listServices cfg now scope).2 =
      ((s.services.entries.filter fun e => e.2.scope = scope).map fun e =>
        publicService (s.withCapabilities now e.1 e.2)).mergeSort
          fun l r => cfg.localeLe l.serviceId r.serviceId := by
  simp only [listServices]
  congr 1
  rw [scopeServices, services_foldl_refresh]
  simp only [JsMap.values, JsMap.entries_mapVals, List.map_map, List.filter_map]
  have hmem : ∀ e ∈ s.services.entries, e.2.scope = scope →
      e.1 ∈ (s.scopeServices scope).map fun r => serviceKey scope r.serviceId := by
    intro e he hsc
    refine List.mem_map.mpr ⟨e.2, List.mem_filter.mpr ⟨JsMap.mem_values_iff.mpr ⟨e.1, he⟩, ?_⟩, ?_⟩
    · simpa using hsc
    · rw [h _ _ (JsMap.get?_eq_some_iff.mpr he), hsc]
  have hfilter : s.services.entries.filter ((fun r : ServiceRecord => decide (r.scope = scope)) ∘
      Prod.snd ∘ fun e => (e.1, if e.1 ∈ (s.scopeServices scope).map fun r =>
        serviceKey scope r.serviceId then s.withCapabilities now e.1 e.2 else e.2)) =
      s.services.entries.filter fun e => e.2.scope = scope := by
    refine List.filter_congr fun e _ => ?_
    simp only [Function.comp_apply]
    split <;> rfl
  rw [hfilter]
  refine List.map_congr_left fun e he => ?_
  obtain ⟨he, hsc⟩ := List.mem_filter.mp he
  rw [decide_eq_true_eq] at hsc
  simp only [Function.comp_apply, if_pos (hmem e he hsc)]

/-! ### Alike states answer alike -/

theorem Alike.capabilitiesAt (h : Alike now s u) (k : JsString) : u.capabilitiesAt now k = [] := by
  rw [BrokerState.capabilitiesAt, h.reports]
  rfl

theorem Alike.createProbe (h : Alike now s u)
    (hc : ∀ k, s.services.has k = true → s.capabilitiesAt now k = [])
    (draws : ℕ → JsString) (input : CreateProbeInput) :
    (u.createProbe cfg now draws input scope).2 = (s.createProbe cfg now draws input scope).2 := by
  simp only [BrokerState.createProbe]
  rcases compileProbeInput cfg.jsep input with e | compiled
  · rfl
  have hservice : (u.refreshServiceCapabilities now scope input.serviceId).services.get?
      (serviceKey scope input.serviceId) =
      (s.refreshServiceCapabilities now scope input.serviceId).services.get?
        (serviceKey scope input.serviceId) := by
    rw [services_refresh, services_refresh, h.services, JsMap.mapVals_mapVals, JsMap.get?_mapVals,
      JsMap.get?_mapVals]
    rcases hg : s.services.get? (serviceKey scope input.serviceId) with - | r
    · rfl
    · have hhas : s.services.has (serviceKey scope input.serviceId) = true := by
        rw [JsMap.has, hg]
        rfl
      simp [withCapabilities, h.capabilitiesAt, hc _ hhas]
  have hucore : (u.refreshServiceCapabilities now scope input.serviceId).core = u.core :=
    core_refreshServiceCapabilities input.serviceId
  have hscore : (s.refreshServiceCapabilities now scope input.serviceId).core = s.core :=
    core_refreshServiceCapabilities input.serviceId
  simp only [core, Prod.mk.injEq] at hucore hscore
  have hprobes := hucore.1.trans (h.probes.trans hscore.1.symm)
  have hversions := hucore.2.1.trans (h.serviceVersions.trans hscore.2.1.symm)
  generalize u.refreshServiceCapabilities now scope input.serviceId = u' at hservice hprobes hversions ⊢
  generalize s.refreshServiceCapabilities now scope input.serviceId = s' at hservice hprobes hversions ⊢
  have hdraw : u'.drawProbeId draws = s'.drawProbeId draws := by
    simp only [drawProbeId, hprobes]
  have hversion : u'.serviceVersion scope input.serviceId =
      s'.serviceVersion scope input.serviceId := by
    simp only [serviceVersion, hversions]
  dsimp only
  rw [hservice, hdraw, hversion]
  rcases checkService (s'.services.get? (serviceKey scope input.serviceId)) input compiled with
    e | ⟨⟩
  · rfl
  rcases s'.drawProbeId draws with - | id
  · rfl
  dsimp only
  split
  · rcases probeDefinitionSchema (newDefinition compiled id
      (s'.serviceVersion scope input.serviceId + 1)) with - | probe <;> rfl
  · rfl

theorem Alike.deleteProbe (h : Alike now s u) (id : JsString) :
    (u.deleteProbe now id scope).2 = (s.deleteProbe now id scope).2 := by
  simp only [BrokerState.deleteProbe, h.probes]
  rcases s.probes.get? id with - | stored
  · rfl
  dsimp only
  split <;> rfl

theorem Alike.ownProbe (h : Alike now s u) (id : JsString) :
    u.ownProbe id scope = s.ownProbe id scope := by
  rw [BrokerState.ownProbe, BrokerState.ownProbe, h.probes]

theorem Alike.activeProbes (h : Alike now s u) (serviceId : JsString) :
    u.activeProbes scope serviceId = s.activeProbes scope serviceId := by
  rw [BrokerState.activeProbes, BrokerState.activeProbes, h.probes]

theorem Alike.pollAnswer (h : Alike now s u) (serviceId : JsString) (since : ℤ)
    (commitSha : Option JsString) :
    u.pollAnswer cfg serviceId since commitSha scope =
      s.pollAnswer cfg serviceId since commitSha scope := by
  have hversion : u.serviceVersion scope serviceId = s.serviceVersion scope serviceId := by
    rw [serviceVersion, serviceVersion, h.serviceVersions]
  have hmaps : u.completeMaps scope serviceId = s.completeMaps scope serviceId := by
    funext c
    rw [completeMaps, completeMaps, h.sourceMapSets]
  have hlocated : u.located cfg serviceId commitSha scope = s.located cfg serviceId commitSha scope := by
    rw [located, located, h.activeProbes, hmaps]
  simp only [BrokerState.pollAnswer, hversion, hlocated]

/-- A lease that is not live is as good as none. -/
theorem claimable_of_expired {l : Option SourceMapLease} (h : ∀ a ∈ l, a.expiresAt ≤ now)
    (uploaderId : JsString) : claimable now uploaderId l = true := by
  cases l with
  | none => rfl
  | some a => simp [claimable, h a rfl]

theorem holdsLease_of_expired {l : Option SourceMapLease} (h : ∀ a ∈ l, a.expiresAt ≤ now)
    (uploaderId : JsString) : holdsLease now uploaderId l = false := by
  cases l with
  | none => rfl
  | some a => simp [holdsLease, h a rfl]

theorem Alike.holdsLease (h : Alike now s u)
    (hl : s.sourceMapLeases.All fun _ l => l.expiresAt ≤ now) (uploaderId key : JsString) :
    BrokerState.holdsLease now uploaderId (u.sourceMapLeases.get? key) = false ∧
      BrokerState.holdsLease now uploaderId (s.sourceMapLeases.get? key) = false := by
  refine ⟨?_, holdsLease_of_expired (fun a ha => hl key a ha) uploaderId⟩
  rw [h.leases]
  rfl

theorem Alike.sourceMapStatus (h : Alike now s u)
    (hl : s.sourceMapLeases.All fun _ l => l.expiresAt ≤ now)
    (serviceId commitSha uploaderId : JsString) :
    (u.sourceMapStatus now serviceId commitSha uploaderId scope).2 =
      (s.sourceMapStatus now serviceId commitSha uploaderId scope).2 := by
  have hs : claimable now uploaderId
      (s.sourceMapLeases.get? (sourceMapKey scope serviceId commitSha)) = true :=
    claimable_of_expired (fun a ha => hl _ a ha) uploaderId
  simp only [BrokerState.sourceMapStatus, h.sourceMapSets, h.leases, hs]
  split <;> rfl

theorem Alike.checkEvents (h : Alike now s u) (input : IngestInput) (l : List ProbeEvent) :
    Broker.checkEvents input scope u l = Broker.checkEvents input scope s l := by
  induction l with
  | nil => rfl
  | cons e l ih => rw [Broker.checkEvents, Broker.checkEvents, h.probes, ih]

theorem setInstances_answer (scope : ResourceScope) (agent : NativeAgentRecord) (agentId : JsString)
    (l : List NativeInstance) (s u : BrokerState) :
    (u.setInstances scope agent agentId l).2 = (s.setInstances scope agent agentId l).2 := by
  induction l generalizing s u with
  | nil => rfl
  | cons i l ih =>
    unfold setInstances
    split
    · rfl
    · exact ih _ _

/-- The agents and the instances decide on a report of instances. -/
theorem replaceNativeInstances_answer (hagents : u.nativeAgents = s.nativeAgents)
    (hinstances : u.nativeInstances = s.nativeInstances) (agentId : JsString)
    (instances : List NativeInstance) (allowed : List JsString) :
    (u.replaceNativeInstances now agentId instances scope allowed).2 =
      (s.replaceNativeInstances now agentId instances scope allowed).2 := by
  have howned : u.ownedByAnother scope agentId = s.ownedByAnother scope agentId := by
    funext id
    rw [ownedByAnother, ownedByAnother, hinstances]
  simp only [BrokerState.replaceNativeInstances, hagents, howned]
  rcases s.nativeAgents.get? (nativeAgentKey scope agentId) with - | agent
  · rfl
  rcases checkInstances (s.ownedByAnother scope agentId) allowed [] instances with e | ⟨⟩
  · rfl
  have ha := setInstances_answer scope agent agentId instances
    (s.dropInstances scope agentId (instances.map (·.instanceId)))
    (u.dropInstances scope agentId (instances.map (·.instanceId)))
  dsimp only
  generalize (u.dropInstances scope agentId (instances.map (·.instanceId))).setInstances scope agent
    agentId instances = tu at ha ⊢
  generalize (s.dropInstances scope agentId (instances.map (·.instanceId))).setInstances scope agent
    agentId instances = ts at ha ⊢
  obtain ⟨tu, ru⟩ := tu
  obtain ⟨ts, rs⟩ := ts
  obtain rfl : ru = rs := ha
  rcases ru with e | ⟨⟩ <;> rfl

theorem Alike.acceptNativeEvents (h : Alike now s u) (input : NativeIngestEnvelope)
    (l : List ProbeEvent) :
    (u.pruneRemovedProbes now).acceptNativeEvents input scope l =
      (s.pruneRemovedProbes now).acceptNativeEvents input scope l := by
  induction l with
  | nil => rfl
  | cons e l ih =>
    have hp : (u.pruneRemovedProbes now).probes = s.probes := h.probes
    have hp' : (s.pruneRemovedProbes now).probes = s.probes := rfl
    simp only [BrokerState.acceptNativeEvents, ih, hp, hp']
    rcases hg : s.probes.get? e.probeId with - | stored
    · dsimp only
      rw [JsMap.has, JsMap.has, h.removed e.probeId (JsMap.has_eq_false_iff.mpr hg)]
    · rfl

/-- The instances and the checks of the events decide on a native batch. -/
theorem ingestNative_answer (hinstances : u.nativeInstances = s.nativeInstances)
    {input : NativeIngestEnvelope}
    (haccept : (u.pruneRemovedProbes now).acceptNativeEvents input scope input.events =
      (s.pruneRemovedProbes now).acceptNativeEvents input scope input.events) :
    (u.ingestNative cfg now input scope).2 = (s.ingestNative cfg now input scope).2 := by
  have hchecked : (u.ingestNativeChecked cfg now input scope).2 =
      (s.ingestNativeChecked cfg now input scope).2 := by
    simp only [ingestNativeChecked, hinstances]
    split
    · rw [haccept]
      rcases (s.pruneRemovedProbes now).acceptNativeEvents input scope input.events with
        e | accepted <;> rfl
    · rfl
  simp only [BrokerState.ingestNative]
  generalize u.ingestNativeChecked cfg now input scope = ru at hchecked ⊢
  generalize s.ingestNativeChecked cfg now input scope = rs at hchecked ⊢
  obtain ⟨tu, ru⟩ := ru
  obtain ⟨ts, rs⟩ := rs
  obtain rfl : ru = rs := hchecked
  rcases ru with (⟨_, _, _⟩ | _ | _) | n <;> rfl

theorem Alike.nativeAssignments {ids : JsString → Prop} (h : Alike now s u)
    (hn : AlikeNative ids s u) (hids : s.probes.All fun _ p => ids p.probe.id)
    (agentId : JsString) (since : ℤ) (allowed : List JsString) :
    (u.nativeAssignments cfg now agentId since scope allowed).2 =
      (s.nativeAssignments cfg now agentId since scope allowed).2 := by
  have hE := h.expireDueProbes cfg
  have hnE := hn.expireDueProbes h cfg
  have hidsE : (s.expireDueProbes cfg now).probes.All fun _ p => ids p.probe.id := by
    intro k p hk
    rw [probes_expireDueProbes, JsMap.get?_mapVals] at hk
    obtain ⟨q, hq, rfl⟩ := Option.map_eq_some_iff.mp hk
    have hid : (q.expire now).probe = q.probe := by
      unfold StoredProbe.expire
      split <;> rfl
    rw [hid]
    exact hids k q hq
  have hagents : (s.expireDueProbes cfg now).nativeAgents = s.nativeAgents := by
    obtain ⟨_, _, _, _, _, h⟩ := frame_expireDueProbes cfg now s
    rw [h]
  simp only [BrokerState.nativeAssignments, h.nativeAgents]
  split
  · next hreg =>
    rw [← hagents] at hreg
    generalize u.expireDueProbes cfg now = u at hE hnE
    generalize s.expireDueProbes cfg now = s at hE hnE hidsE hreg
    have hversion : u.assignmentVersion scope agentId = s.assignmentVersion scope agentId := by
      rw [assignmentVersion, assignmentVersion, hnE.versions _ hreg]
    have hassign : u.instanceAssignment scope agentId = s.instanceAssignment scope agentId := by
      funext i
      simp only [instanceAssignment, hE.activeProbes]
      congr 1
      refine List.filter_congr fun p hp => ?_
      obtain ⟨stored, hmem, rfl⟩ := List.mem_map.mp hp
      obtain ⟨k, hk⟩ := JsMap.mem_values_iff.mp (List.mem_filter.mp hmem).1
      have hid := hidsE k stored (JsMap.get?_eq_some_iff.mpr hk)
      rw [nativeTerminal, nativeTerminal, hnE.statuses _ _ _ _ _ _ hid]
    have hagent : u.agentInstances scope agentId = s.agentInstances scope agentId := by
      rw [agentInstances, agentInstances, hE.nativeInstances]
    simp only [hversion, desiredAssignments, hassign, hagent]
  · rfl

/-! ### What has to be there to be forgotten -/

/-- The later answers of `u` are those of `s`. -/
def SameAnswers (cfg : Config) (now : ℕ) (s u : BrokerState) : Prop :=
  ∀ (scope : ResourceScope) (q : Request), q.Valid →
    (u.handle cfg now scope q).2 = (s.handle cfg now scope q).2

/-- There is nothing a rollback forgets that an answer at the clock would show. -/
structure Recoverable (cfg : Config) (now : ℕ) (s : BrokerState) : Prop where
  /-- No service has capabilities. -/
  capabilities : ∀ k, s.services.has k = true → s.capabilitiesAt now k = []
  /-- No lease is live. -/
  leases : s.sourceMapLeases.All fun _ l => l.expiresAt ≤ now
  /-- The broker's schema leaves the stored events as they are. -/
  events : (s.expireDueProbes cfg now).events.All fun _ ring => ∀ e ∈ ring, Kept probeEventSchema e

theorem map_readEvent {ring : List ProbeEvent} :
    ring.map readEvent = ring ↔ ∀ e ∈ ring, Kept probeEventSchema e := by
  conv_lhs => rhs; rw [← List.map_id ring]
  rw [List.map_inj_left]
  exact forall₂_congr fun _ _ => readEvent_eq_self

theorem Alike.mono {n : ℕ} (h : Alike n s u) (hle : n ≤ now) : Alike now s u := by
  refine { h with removed := fun id hid => ?_ }
  have hprune : ∀ t : BrokerState, (t.pruneRemovedProbes now).recentlyRemovedProbes =
      ((t.pruneRemovedProbes n).pruneRemovedProbes now).recentlyRemovedProbes := fun t =>
    (pruneRemovedProbes_pruned hle rfl).symm
  have hn := h.removed id hid
  rw [hprune, hprune s]
  simp only [pruneRemovedProbes, JsMap.get?_filter] at hn ⊢
  rw [hn]

theorem Alike.listServices {L : Limits} (h : Alike now s u) (hs : s.services.All (ServiceOk L))
    (hc : ∀ k, s.services.has k = true → s.capabilitiesAt now k = []) :
    (u.listServices cfg now scope).2 = (s.listServices cfg now scope).2 := by
  have hu : u.services.All (ServiceOk L) := by
    rw [h.services]
    intro k r hk
    rw [JsMap.get?_mapVals] at hk
    obtain ⟨old, hold, rfl⟩ := Option.map_eq_some_iff.mp hk
    exact { hs k old hold with capabilities := capabilitiesOk_nil }
  rw [listServices_answer cfg now scope fun k r hk => (hs k r hk).key,
    listServices_answer cfg now scope fun k r hk => (hu k r hk).key]
  refine congrArg (List.mergeSort · _) ?_
  rw [h.services, JsMap.entries_mapVals, List.filter_map, List.map_map]
  refine List.map_congr_left fun e he => ?_
  have hhas : s.services.has e.1 = true := by
    rw [JsMap.has, JsMap.get?_eq_some_iff.mpr (List.mem_filter.mp he).1]
    rfl
  simp only [Function.comp_apply, withCapabilities, h.capabilitiesAt, hc e.1 hhas]

/-- **With nothing to forget, and native keys that can be split, alike states
answer alike.** -/
theorem Alike.sameAnswers {L : Limits} {ids : JsString → Prop} (h : Alike now s u)
    (hn : AlikeNative ids s u) (hids : s.probes.All fun _ p => ids p.probe.id)
    (hs : s.services.All (ServiceOk L)) (hr : Recoverable cfg now s) :
    SameAnswers cfg now s u := by
  intro scope q hq
  have hE := h.expireDueProbes cfg
  cases q with
  | createProbe draws input => exact congrArg Response.created (h.createProbe hr.capabilities draws input)
  | deleteProbe id => exact congrArg Response.deleted (h.deleteProbe id)
  | listProbes serviceId =>
    simp only [BrokerState.handle, answer, listProbes, hE.probes, hE.statuses]
  | getProbe id => simp only [BrokerState.handle, answer, getProbe, hE.ownProbe]
  | getEvents id =>
    simp only [BrokerState.handle, answer, getEvents, hE.ownProbe, hE.events, JsMap.get?_mapVals]
    rcases (s.expireDueProbes cfg now).ownProbe id scope with - | stored
    · rfl
    rcases hg : (s.expireDueProbes cfg now).events.get? id with - | ring
    · rfl
    · simp only [Option.map_some, Option.getD_some, map_readEvent.mpr (hr.events id ring hg)]
  | getStatus id => simp only [BrokerState.handle, answer, getStatus, hE.ownProbe, hE.statuses]
  | pollProbes serviceId since commitSha =>
    exact congrArg Response.poll (hE.pollAnswer serviceId since commitSha)
  | sourceMapStatus serviceId commitSha uploaderId =>
    exact congrArg Response.sourceMapStatus
      (h.sourceMapStatus hr.leases serviceId commitSha uploaderId)
  | uploadSourceMap input =>
    obtain ⟨hu, hs⟩ := h.holdsLease hr.leases input.uploaderId
      (sourceMapKey scope input.serviceId input.commitSha)
    simp [BrokerState.handle, answer, uploadSourceMap, assertSourceMapUploader, hu, hs]
  | completeSourceMaps serviceId commitSha uploaderId =>
    obtain ⟨hu, hs⟩ := h.holdsLease hr.leases uploaderId (sourceMapKey scope serviceId commitSha)
    simp [BrokerState.handle, answer, completeSourceMaps, assertSourceMapUploader, hu, hs]
  | getSourceMapSet serviceId commitSha =>
    simp only [BrokerState.handle, answer, getSourceMapSet, h.sourceMapSets]
  | ingest input =>
    simp only [BrokerState.handle, answer, BrokerState.ingest, hE.checkEvents]
    split <;> rfl
  | registerNativeAgent input =>
    simp only [BrokerState.handle, answer, BrokerState.registerNativeAgent]
    split <;> rfl
  | replaceNativeInstances agentId instances allowed =>
    exact congrArg Response.accepted
      (replaceNativeInstances_answer h.nativeAgents h.nativeInstances agentId instances allowed)
  | nativeAssignments agentId since allowed =>
    exact congrArg Response.assignments (h.nativeAssignments hn hids agentId since allowed)
  | ingestNative input =>
    exact congrArg Response.accepted
      (ingestNative_answer h.nativeInstances (h.acceptNativeEvents input input.events))
  | listServices => exact congrArg Response.services (h.listServices hs hr.capabilities)

/-! ### What the answers show -/

/-- A service is listed with its capabilities. -/
theorem capabilities_of_sameAnswers {L : Limits} (h : Alike now s u)
    (hs : s.services.All (ServiceOk L)) (hu : u.services.All (ServiceOk L))
    (ha : SameAnswers cfg now s u) {k : JsString} (hk : s.services.has k = true) :
    s.capabilitiesAt now k = [] := by
  obtain ⟨r, hr⟩ := Option.isSome_iff_exists.mp hk
  have hlist : (u.listServices cfg now r.scope).2 = (s.listServices cfg now r.scope).2 :=
    Response.services.inj (ha r.scope .listServices trivial)
  rw [listServices_answer cfg now r.scope fun k r hk => (hs k r hk).key,
    listServices_answer cfg now r.scope fun k r hk => (hu k r hk).key] at hlist
  have hmem : publicService (s.withCapabilities now k r) ∈
      ((s.services.entries.filter fun e => e.2.scope = r.scope).map fun e =>
        publicService (s.withCapabilities now e.1 e.2)) :=
    List.mem_map.mpr ⟨(k, r), List.mem_filter.mpr ⟨JsMap.get?_eq_some_iff.mp hr, by simp⟩, rfl⟩
  have hmem' := (List.mergeSort_perm _ fun l r : ServiceRecord =>
    cfg.localeLe l.serviceId r.serviceId).mem_iff.mpr hmem
  rw [← hlist] at hmem'
  obtain ⟨e, -, he⟩ := List.mem_map.mp (List.mem_mergeSort.mp hmem')
  have hcap : some (u.capabilitiesAt now e.1) = some (s.capabilitiesAt now k) :=
    congrArg ServiceRecord.capabilities he
  rw [h.capabilitiesAt] at hcap
  exact (Option.some.inj hcap).symm

/-- The holder of a live lease may complete its set. -/
theorem lease_of_sameAnswers (h : Alike now s u) (hs : s.sourceMapLeases.All LeaseOk)
    (ha : SameAnswers cfg now s u) {k : JsString} {l : SourceMapLease}
    (hk : s.sourceMapLeases.get? k = some l) : l.expiresAt ≤ now := by
  obtain ⟨scope, serviceId, commitSha, rfl, hservice, hcommit, huploader⟩ := hs k l hk
  by_contra hlive
  have hdone : (u.completeSourceMaps cfg now serviceId commitSha l.uploaderId scope).2 =
      (s.completeSourceMaps cfg now serviceId commitSha l.uploaderId scope).2 :=
    Response.done.inj (ha scope (.completeSourceMaps serviceId commitSha l.uploaderId)
      ⟨hservice, hcommit, huploader⟩)
  have hheld : BrokerState.holdsLease now l.uploaderId (some l) = true := by
    simpa [BrokerState.holdsLease] using hlive
  have hvoid : BrokerState.holdsLease now l.uploaderId none = false := rfl
  rw [completeSourceMaps, completeSourceMaps, assertSourceMapUploader, assertSourceMapUploader,
    hk, h.leases, JsMap.get?_empty] at hdone
  simp [hheld, hvoid] at hdone

/-- The events of a probe are shown. -/
theorem events_of_sameAnswers {L : Limits} (h : Alike now s u) (hi : Indexed s)
    (hs : Records cfg L (s.expireDueProbes cfg now)) (ha : SameAnswers cfg now s u) {k : JsString}
    {ring : List ProbeEvent} (hk : (s.expireDueProbes cfg now).events.get? k = some ring) :
    ∀ e ∈ ring, Kept probeEventSchema e := by
  have hhas := hs.known k (Or.inl (by rw [JsMap.has, hk]; rfl))
  obtain ⟨stored, hstored⟩ := Option.isSome_iff_exists.mp hhas
  have hevents : (u.getEvents cfg now k stored.scope).2 = (s.getEvents cfg now k stored.scope).2 :=
    Response.events.inj (ha stored.scope (.getEvents k)
      (Indexed.probeId hi.expireDueProbes hstored))
  have hE := h.expireDueProbes cfg
  have hown : (s.expireDueProbes cfg now).ownProbe k stored.scope = some stored := by
    simp [BrokerState.ownProbe, hstored]
  simp only [getEvents, hE.ownProbe, hown, hE.events, JsMap.get?_mapVals, hk, Option.map_some,
    Option.getD_some] at hevents
  exact map_readEvent.mp hevents

/-! ### Expiry before an answer -/

theorem expire_scope (now : ℕ) (p : StoredProbe) : (p.expire now).scope = p.scope := by
  unfold StoredProbe.expire
  split <;> rfl

theorem expire_probe (now : ℕ) (p : StoredProbe) : (p.expire now).probe = p.probe := by
  unfold StoredProbe.expire
  split <;> rfl

theorem acceptNativeEvents_expire (input : NativeIngestEnvelope) (l : List ProbeEvent) :
    ((s.expireDueProbes cfg now).pruneRemovedProbes now).acceptNativeEvents input scope l =
      (s.pruneRemovedProbes now).acceptNativeEvents input scope l := by
  have hremoved : ((s.expireDueProbes cfg now).pruneRemovedProbes now).recentlyRemovedProbes =
      (s.pruneRemovedProbes now).recentlyRemovedProbes := by
    rw [pruneRemovedProbes, recentlyRemovedProbes_expireDueProbes]
    rfl
  have hprobes : ((s.expireDueProbes cfg now).pruneRemovedProbes now).probes =
      s.probes.mapVals fun _ p => p.expire now := probes_expireDueProbes cfg now s
  induction l with
  | nil => rfl
  | cons e l ih =>
    have hp : (s.pruneRemovedProbes now).probes = s.probes := rfl
    simp only [acceptNativeEvents, ih, hremoved, hprobes, hp, JsMap.get?_mapVals]
    rcases s.probes.get? e.probeId with - | stored
    · rfl
    · simp only [Option.map_some, checkNativeEvent, expire_scope, expire_probe]

/-- **Only the version of a new probe shows whether what is due was expired
before.** -/
theorem answer_expireDueProbes {L : Limits} (hs : s.services.All (ServiceOk L)) {q : Request}
    (hq : ∀ draws input, q = .createProbe draws input → Settled now s) :
    ((s.expireDueProbes cfg now).handle cfg now scope q).2 = (s.handle cfg now scope q).2 := by
  obtain ⟨_, _, _, _, _, hframe⟩ := frame_expireDueProbes cfg now s
  have hE : (s.expireDueProbes cfg now).expireDueProbes cfg now = s.expireDueProbes cfg now :=
    (settled_expireDueProbes cfg now s).expireDueProbes
  have hsets : (s.expireDueProbes cfg now).sourceMapSets = s.sourceMapSets := by rw [hframe]
  have hleases : (s.expireDueProbes cfg now).sourceMapLeases = s.sourceMapLeases := by rw [hframe]
  have hagents : (s.expireDueProbes cfg now).nativeAgents = s.nativeAgents := by rw [hframe]
  have hinstances : (s.expireDueProbes cfg now).nativeInstances = s.nativeInstances := by
    rw [hframe]
  cases q with
  | createProbe draws input => rw [(hq draws input rfl).expireDueProbes]
  | deleteProbe id =>
    simp only [BrokerState.handle, answer, deleteProbe, probes_expireDueProbes, JsMap.get?_mapVals]
    rcases s.probes.get? id with - | stored
    · rfl
    · simp only [Option.map_some, expire_scope]
      split <;> rfl
  | listProbes serviceId => simp only [BrokerState.handle, answer, listProbes, hE]
  | getProbe id => simp only [BrokerState.handle, answer, getProbe, hE]
  | getEvents id => simp only [BrokerState.handle, answer, getEvents, hE]
  | getStatus id => simp only [BrokerState.handle, answer, getStatus, hE]
  | pollProbes serviceId since commitSha => simp only [BrokerState.handle, answer, pollProbes, hE]
  | sourceMapStatus serviceId commitSha uploaderId =>
    simp only [BrokerState.handle, answer, sourceMapStatus, hsets, hleases]
    split
    · rfl
    · split <;> rfl
  | uploadSourceMap input =>
    simp only [BrokerState.handle, answer, uploadSourceMap, assertSourceMapUploader, hleases]
    by_cases hl : BrokerState.holdsLease now input.uploaderId
        (s.sourceMapLeases.get? (sourceMapKey scope input.serviceId input.commitSha)) = true
    · simp only [if_pos hl]
      split <;> rfl
    · simp only [if_neg hl]
  | completeSourceMaps serviceId commitSha uploaderId =>
    simp only [BrokerState.handle, answer, completeSourceMaps, assertSourceMapUploader, hleases]
    by_cases hl : BrokerState.holdsLease now uploaderId
        (s.sourceMapLeases.get? (sourceMapKey scope serviceId commitSha)) = true
    · simp only [if_pos hl]
    · simp only [if_neg hl]
  | getSourceMapSet serviceId commitSha =>
    simp only [BrokerState.handle, answer, getSourceMapSet, hsets]
  | ingest input => simp only [BrokerState.handle, answer, BrokerState.ingest, hE]
  | registerNativeAgent input =>
    simp only [BrokerState.handle, answer, BrokerState.registerNativeAgent]
    split <;> rfl
  | replaceNativeInstances agentId instances allowed =>
    exact congrArg Response.accepted
      (replaceNativeInstances_answer hagents hinstances agentId instances allowed)
  | nativeAssignments agentId since allowed =>
    simp only [BrokerState.handle, answer, nativeAssignments, hE, hagents]
    split <;> rfl
  | ingestNative input =>
    exact congrArg Response.accepted
      (ingestNative_answer hinstances (acceptNativeEvents_expire input input.events))
  | listServices =>
    have hservices : (s.expireDueProbes cfg now).services.All (ServiceOk L) := by rwa [hframe]
    refine congrArg Response.services ?_
    rw [listServices_answer cfg now scope fun k r hk => (hs k r hk).key,
      listServices_answer cfg now scope fun k r hk => (hservices k r hk).key, hframe]
    rfl

/-! ### The rollback -/

/-- **A rollback keeps every later answer exactly when it forgets nothing.**

The mutation is run at `n₀` and rolled back at `n₁`, and the answer is given at
`now`; what was due at `n₁` counts as expired, which only the version of a
probe created next can tell. -/
theorem rolledBack_answers (cfg : Config) {p : Process}
    (h : Reached (Process.next cfg) (fun _ e => Process.Valid e) {} p) {n₀ n₁ now : ℕ}
    (h₀ : n₀ ≤ n₁) (h₁ : n₁ ≤ now) (task : QueueTask) {u : BrokerState}
    (hu : p.state.rolledBack cfg n₀ n₁ task = some u) :
    (SameAnswers cfg now (p.state.expireDueProbes cfg n₁) u →
      Recoverable cfg now (p.state.expireDueProbes cfg n₁)) ∧
    (PlainNativeKeys p.state → Recoverable cfg now (p.state.expireDueProbes cfg n₁) →
      SameAnswers cfg now (p.state.expireDueProbes cfg n₁) u) ∧
    ∀ scope q, (∀ draws input, q = .createProbe draws input → Settled n₁ p.state) →
      ((p.state.expireDueProbes cfg n₁).handle cfg n₁ scope q).2 =
        (p.state.handle cfg n₁ scope q).2 := by
  obtain ⟨hi, hr⟩ := Process.records_of_valid h
  have hiE : Indexed (p.state.expireDueProbes cfg n₁) := hi.expireDueProbes
  have hrE : Records cfg .schemas (p.state.expireDueProbes cfg n₁) := hr.expireDueProbes hi trivial
  have halike := (alike_rolledBack hi hr h₀ hu).mono h₁
  refine ⟨fun ha => ⟨fun k => ?_, fun k l => ?_, fun k ring => ?_⟩, fun hp hrec => ?_,
    fun scope q => answer_expireDueProbes hr.services⟩
  · refine capabilities_of_sameAnswers halike hrE.services ?_ ha
    rw [halike.services]
    intro k r hk
    rw [JsMap.get?_mapVals] at hk
    obtain ⟨old, hold, rfl⟩ := Option.map_eq_some_iff.mp hk
    exact { hrE.services k old hold with capabilities := capabilitiesOk_nil }
  · exact lease_of_sameAnswers halike hrE.leases ha
  · exact events_of_sameAnswers halike hiE (hrE.expireDueProbes hiE trivial) ha
  · refine halike.sameAnswers (alikeNative_rolledBack hi hr hp h₀ hu) ?_ hrE.services hrec
    intro k stored hk
    obtain rfl := (hiE.probes k stored hk).1
    rw [probes_expireDueProbes, JsMap.get?_mapVals] at hk
    obtain ⟨q, hq, -⟩ := Option.map_eq_some_iff.mp hk
    rw [JsMap.has, hq]
    rfl

/-- The creation of the second counter. -/
def secondCounter : QueueTask :=
  .request Sample.scope (.createProbe (Sample.draw '2') (Sample.counter 2))

theorem rolledBack_answers_created :
    ∃ u, Sample.created.state.rolledBack Sample.config 1 2 secondCounter = some u ∧
      SameAnswers Sample.config 3 (Sample.created.state.expireDueProbes Sample.config 2) u := by
  have hsome : (Sample.created.state.rolledBack Sample.config 1 2 secondCounter).isSome = true := by
    decide
  obtain ⟨u, hu⟩ := Option.isSome_iff_exists.mp hsome
  refine ⟨u, hu, (rolledBack_answers Sample.config Sample.created_reached (by decide) (by decide)
    secondCounter hu).2.1 ⟨.of_size (by decide), .of_size (by decide)⟩
      ⟨?_, .of_size (by decide), ?_⟩⟩
  · have hempty : (Sample.created.state.expireDueProbes Sample.config 2).services.size = 0 := by
      decide
    intro k hk
    obtain ⟨r, hr⟩ := Option.isSome_iff_exists.mp hk
    exact (JsMap.All.of_size hempty (P := fun _ _ => False) k r hr).elim
  · have hempty : ((Sample.created.state.expireDueProbes Sample.config 2).expireDueProbes
        Sample.config 3).events.values.all (·.isEmpty) = true := by decide
    intro k ring hk e he
    have hring := List.all_eq_true.mp hempty ring
      (JsMap.mem_values_iff.mpr ⟨k, JsMap.get?_eq_some_iff.mp hk⟩)
    rw [List.isEmpty_iff.mp hring] at he
    cases he

/-! ### A lease is forgotten -/

def commit : JsString := js "0123456789abcdef0123456789abcdef01234567"

/-- A process in which an agent has claimed the source maps of a commit. -/
def claimedProcess : Process :=
  Process.next Sample.config {} (.request 0 Sample.scope (.sourceMapStatus (js "api") commit (js "agent")))

/-- **After a creation whose persist call rejects, the uploader of a commit's
source maps is no longer let complete them.** -/
theorem rollback_forgets_lease :
    ¬∀ (p : Process), Reached (Process.next Sample.config) (fun _ e => Process.Valid e) {} p →
      ∀ (n : ℕ) (task : QueueTask) (u : BrokerState),
        p.state.rolledBack Sample.config n n task = some u →
        SameAnswers Sample.config n p.state u := by
  intro h
  have hvalid : serviceIdSchema (js "api") = some (js "api") ∧ sourceCommitSchema commit = some commit ∧
      agentIdSchema (js "agent") = some (js "agent") := by decide
  have hreached : Reached (Process.next Sample.config) (fun _ e => Process.Valid e) {}
      claimedProcess := Reached.init.step _ hvalid
  have hbefore : (claimedProcess.state.handle Sample.config 1 Sample.scope
      (.completeSourceMaps (js "api") commit (js "agent"))).2.returned = true := by decide
  have hafter : (claimedProcess.state.rolledBack Sample.config 1 1 secondCounter).map (fun u =>
      (u.handle Sample.config 1 Sample.scope
        (.completeSourceMaps (js "api") commit (js "agent"))).2.returned) = some false := by
    decide
  obtain ⟨u, hu, hreturned⟩ := Option.map_eq_some_iff.mp hafter
  have hsame := h claimedProcess hreached 1 secondCounter u hu Sample.scope
    (.completeSourceMaps (js "api") commit (js "agent")) hvalid
  rw [hsame, hbefore] at hreturned
  cases hreturned

end BrokerState
