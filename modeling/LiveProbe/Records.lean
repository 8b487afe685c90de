/-
LiveProbe/Records.lean

What the maps of a broker hold, beside the core: rings of events, statuses,
service records, leases, native agents and their instances.

`Records` says of every entry that it sits under the key of its own fields and
that these have passed a schema, the one exception being a timestamp the broker
wrote from its clock.  How far the inputs of a run are held to more than their
schemas (`Limits`) is a parameter, since the encoders of the state ask for more
than the requests promise: a clock before the year 10000, identifiers without
NUL, an expiry that is a safe integer.
-/
import LiveProbe.Core
import LiveProbe.Effects
import LiveProbe.OrderedSets

open JsString Schema Broker Protocol BrokerState

/-! ### Limits -/

/-- What the inputs of a run are held to. -/
structure Limits where
  /-- The readings of the clock. -/
  clock : ℕ → Prop
  scope : ResourceScope → Prop
  /-- When a new probe expires. -/
  expiry : ℕ → Prop
  /-- The events of native agents. -/
  event : ProbeEvent → Prop
  /-- The identifiers of native agents and instances hold no NUL. -/
  plainIds : Prop

/-- No limits beyond the schemas. -/
def Limits.schemas : Limits where
  clock _ := True
  scope _ := True
  expiry _ := True
  event _ := True
  plainIds := False

/-- The schemas, and identifiers without NUL. -/
def Limits.plain : Limits := { Limits.schemas with plainIds := True }

/-- A request within the limits. -/
structure Limits.Admits (L : Limits) (now : ℕ) (scope : ResourceScope) (r : Request) : Prop where
  clock : L.clock now
  scope : L.scope scope
  expiry : ∀ draws input, r = .createProbe draws input → L.expiry (now + input.ttlSeconds * 1000)
  events : ∀ input, r = .ingestNative input → ∀ e ∈ input.events, L.event e
  agentId : L.plainIds → ∀ input, r = .registerNativeAgent input → nul ∉ input.agentId
  instanceIds : L.plainIds → ∀ agentId instances allowed,
    r = .replaceNativeInstances agentId instances allowed → ∀ i ∈ instances, nul ∉ i.instanceId

theorem Limits.schemas_admits (now : ℕ) (scope : ResourceScope) (r : Request) :
    Limits.schemas.Admits now scope r :=
  ⟨trivial, trivial, fun _ _ _ => trivial, fun _ _ _ _ => trivial, False.elim, False.elim⟩

/-- A timestamp is one a schema took or one the broker wrote. -/
def Limits.Stamp (L : Limits) (ts : JsString) : Prop :=
  IsoDate.isDatetime ts = true ∨ ∃ n, L.clock n ∧ ts = IsoDate.toISOString n

/-! ### Entries -/

variable {cfg : Config} {L : Limits} {now : ℕ} {scope : ResourceScope} {r : Request}
  {s t : BrokerState}

structure StatusOk (L : Limits) (status : ProbeStatus) : Prop where
  metadata : nativeStatusMetadataSchema status.toNativeStatusMetadata =
    some status.toNativeStatusMetadata
  updatedAt : L.Stamp status.updatedAt
  detail : optional (text 0 4096) status.detail = some status.detail
  armedAt : ∀ ts ∈ status.armedAt, L.Stamp ts
  probeVersion : optional positiveInt status.probeVersion = some status.probeVersion

/-- Where a stored event comes from. -/
inductive EventOk (L : Limits) (e : ProbeEvent) : Prop
  | managed (parsed : probeEventSchema e = some e)
  | native (parsed : nativeProbeEventSchema e = some e) (limit : L.event e)
  | expired (n : ℕ) (read : L.clock n) (eq : e = expiredEvent n e.probeId)

structure RingOk (cfg : Config) (L : Limits) (k : JsString) (ring : List ProbeEvent) : Prop where
  length : ring.length ≤ cfg.ringCapacity
  own : ∀ e ∈ ring, e.probeId = k
  events : ∀ e ∈ ring, EventOk L e

/-- A list of capabilities that passes the schema of service records. -/
def CapabilitiesOk (l : List JsString) : Prop := boundedArray agentCapabilitySchema 0 32 l = some l

structure ServiceOk (L : Limits) (k : JsString) (r : ServiceRecord) : Prop where
  key : k = serviceKey r.scope r.serviceId
  scope : L.scope r.scope
  serviceId : serviceIdSchema r.serviceId = some r.serviceId
  lastSeen : L.Stamp r.lastSeen
  commitSha : optional sourceCommitSchema r.commitSha = some r.commitSha
  capabilities : CapabilitiesOk (r.capabilities.getD [])
  agentStatus : optional agentStatusSchema r.agentStatus = some r.agentStatus
  buildIds : optional (array buildIdSchema) r.buildIds = some r.buildIds

structure SetOk (L : Limits) (m : SourceMapSet) : Prop where
  scope : L.scope m.scope
  updatedAt : L.Stamp m.updatedAt
  maps : m.maps.All fun _ f => L.Stamp f.uploadedAt

/-- A lease is of the key of some commit and held by some uploader. -/
def LeaseOk (k : JsString) (l : SourceMapLease) : Prop :=
  ∃ scope serviceId commitSha, k = sourceMapKey scope serviceId commitSha ∧
    serviceIdSchema serviceId = some serviceId ∧ sourceCommitSchema commitSha = some commitSha ∧
    agentIdSchema l.uploaderId = some l.uploaderId

structure AgentOk (L : Limits) (k : JsString) (a : NativeAgentRecord) : Prop where
  key : k = nativeAgentKey a.scope a.agentId
  registration : nativeAgentRegistrationSchema a.toNativeAgentRegistration =
    some a.toNativeAgentRegistration
  scope : resourceScopeSchema a.scope = some a.scope
  limit : L.scope a.scope
  lastSeen : L.Stamp a.lastSeen
  plain : L.plainIds → nul ∉ a.agentId

structure InstanceOk (L : Limits) (k : JsString) (i : NativeInstanceRecord) : Prop where
  key : k = nativeInstanceKey i.scope i.agentId i.instanceId
  parts : InstanceParts i.toNativeInstance
  some_capabilities : i.capabilities = some (i.capabilities.getD [])
  scope : resourceScopeSchema i.scope = some i.scope
  limit : L.scope i.scope
  agentId : agentIdSchema i.agentId = some i.agentId
  capabilities : ∀ c ∈ i.capabilities.getD [], c ∈ nativeCapabilities
  plain : L.plainIds → nul ∉ i.agentId ∧ nul ∉ i.instanceId

/-- The parts of a native status's key. -/
structure NativeKeyOk (L : Limits) (probeId : JsString) (version : ℕ)
    (agentId instanceId buildId : JsString) : Prop where
  probe : probeIdSchema probeId = some probeId
  positive : positiveInt version = some version
  agent : agentIdSchema agentId = some agentId
  inst : instanceIdSchema instanceId = some instanceId
  build : buildIdSchema buildId = some buildId
  plain : L.plainIds → nul ∉ agentId ∧ nul ∉ instanceId

structure NativeStatusOk (L : Limits) (k : JsString) (status : ProbeStatus) : Prop where
  status : StatusOk L status
  key : ∃ scope probeId version agentId instanceId buildId,
    k = nativeStatusKey scope probeId version agentId instanceId buildId ∧
      NativeKeyOk L probeId version agentId instanceId buildId

/-! ### The invariant -/

structure Records (cfg : Config) (L : Limits) (s : BrokerState) : Prop where
  probes : s.probes.All fun _ p => L.scope p.scope ∧ L.expiry p.expiresAt
  serviceVersions : s.serviceVersions.All fun _ v => L.scope v.scope
  known : ∀ k, s.events.has k = true ∨ s.statuses.has k = true → s.probes.has k = true
  events : s.events.All (RingOk cfg L)
  statuses : s.statuses.All fun _ status => StatusOk L status
  services : s.services.All (ServiceOk L)
  reports : s.agentCapabilityReports.All fun _ reports =>
    reports.All fun _ r => CapabilitiesOk r.capabilities
  sourceMapSets : s.sourceMapSets.All fun _ m => SetOk L m
  leases : s.sourceMapLeases.All LeaseOk
  nativeAgents : s.nativeAgents.All (AgentOk L)
  nativeInstances : s.nativeInstances.All (InstanceOk L)
  registered : s.nativeInstances.All fun _ i =>
    s.nativeAgents.has (nativeAgentKey i.scope i.agentId) = true
  nativeStatuses : s.nativeStatuses.All (NativeStatusOk L)
  assignmentVersions : L.plainIds → ∀ k, s.nativeAssignmentVersions.has k = true →
    s.nativeAgents.has k = true

theorem Records.init : Records cfg L {} where
  probes := .empty
  serviceVersions := .empty
  known := by simp [JsMap.has]
  events := .empty
  statuses := .empty
  services := .empty
  reports := .empty
  sourceMapSets := .empty
  leases := .empty
  nativeAgents := .empty
  nativeInstances := .empty
  registered := .empty
  nativeStatuses := .empty
  assignmentVersions := by simp [JsMap.has]

/-! ### Shared methods -/

theorem has_foldl_bump {scope : ResourceScope} {l : List JsString} {m : JsMap JsString ℕ}
    {k : JsString} (h : (l.foldl (bumpNativeAssignmentVersion scope) m).has k = true) :
    m.has k = true ∨ ∃ a ∈ l, k = nativeAgentKey scope a := by
  induction l generalizing m with
  | nil => exact Or.inl h
  | cons a l ih =>
    rcases ih h with h | ⟨b, hb, hk⟩
    · by_cases hk : k = nativeAgentKey scope a
      · exact Or.inr ⟨a, List.mem_cons_self, hk⟩
      · left
        rwa [JsMap.has, bumpNativeAssignmentVersion, JsMap.get?_set_of_ne hk] at h
    · exact Or.inr ⟨b, List.mem_cons_of_mem _ hb, hk⟩

theorem Records.incrementServiceVersion (h : Records cfg L s) (hL : L.scope scope)
    (serviceId : JsString) : Records cfg L (s.incrementServiceVersion serviceId scope) :=
  { h with
    serviceVersions := h.serviceVersions.set hL
    assignmentVersions := by
      intro hp k hk
      rcases has_foldl_bump hk with hk | ⟨a, ha, rfl⟩
      · exact h.assignmentVersions hp k hk
      · obtain ⟨i, hi, rfl⟩ := List.mem_map.mp ha
        obtain ⟨hv, hown⟩ := List.mem_filter.mp hi
        simp only [Bool.and_eq_true, decide_eq_true_eq] at hown
        obtain ⟨k', hk'⟩ := JsMap.mem_values_iff.mp hv
        exact hown.1 ▸ h.registered k' i (JsMap.get?_eq_some_iff.mpr hk') }

theorem length_pushEvent_le (cfg : Config) (ring : List ProbeEvent) (e : ProbeEvent) :
    (pushEvent cfg ring e).length ≤ cfg.ringCapacity := by
  rw [pushEvent, List.length_drop]
  omega

theorem mem_pushEvent {ring : List ProbeEvent} {e a : ProbeEvent}
    (h : a ∈ pushEvent cfg ring e) : a ∈ ring ∨ a = e := by
  rcases List.mem_append.mp (List.mem_of_mem_drop h) with h | h
  · exact Or.inl h
  · exact Or.inr (List.mem_singleton.mp h)

theorem Records.appendEvent (h : Records cfg L s) {e : ProbeEvent} (he : EventOk L e)
    (hp : s.probes.has e.probeId = true) : Records cfg L (s.appendEvent cfg e) :=
  { h with
    known := by
      intro k hk
      by_cases hke : k = e.probeId
      · exact hke ▸ hp
      · refine h.known k ?_
        rwa [JsMap.has, BrokerState.appendEvent, JsMap.get?_set_of_ne hke] at hk
    events := by
      have hold : ∀ a ∈ (s.events.get? e.probeId).getD [], a.probeId = e.probeId ∧ EventOk L a := by
        intro a ha
        rcases hg : s.events.get? e.probeId with - | ring
        · simp [hg] at ha
        · rw [hg] at ha
          exact ⟨(h.events _ _ hg).own a ha, (h.events _ _ hg).events a ha⟩
      refine h.events.set ⟨length_pushEvent_le _ _ _, fun a ha => ?_, fun a ha => ?_⟩
      · rcases mem_pushEvent ha with ha | rfl
        · exact (hold a ha).1
        · rfl
      · rcases mem_pushEvent ha with ha | rfl
        · exact (hold a ha).2
        · exact he }

theorem Records.setStatus (h : Records cfg L s) {id : JsString} {status : ProbeStatus}
    (hs : StatusOk L status) (hp : s.probes.has id = true) :
    Records cfg L { s with statuses := s.statuses.set id status } :=
  { h with
    known := by
      intro k hk
      by_cases hke : k = id
      · exact hke ▸ hp
      · refine h.known k ?_
        rwa [JsMap.has, JsMap.has, JsMap.get?_set_of_ne hke] at hk
    statuses := h.statuses.set hs }

theorem Records.setService (h : Records cfg L s) {k : JsString} {r : ServiceRecord}
    (hr : ServiceOk L k r) : Records cfg L { s with services := s.services.set k r } :=
  { h with services := h.services.set hr }

theorem expiredEvent_ok (hc : L.clock now) (id : JsString) : EventOk L (expiredEvent now id) :=
  .expired now hc rfl

theorem armedAt_ok (h : Records cfg L s) {id : JsString} :
    ∀ ts ∈ (s.statuses.get? id).bind (·.armedAt), L.Stamp ts := by
  intro ts hts
  obtain ⟨status, hg, hts⟩ := Option.bind_eq_some_iff.mp hts
  exact (h.statuses _ _ hg).armedAt ts hts

theorem expiredStatus_ok (h : Records cfg L s) (hc : L.clock now) (id : JsString) :
    StatusOk L (s.expiredStatus now id) where
  metadata := rfl
  updatedAt := Or.inr ⟨now, hc, rfl⟩
  detail := rfl
  armedAt := armedAt_ok h
  probeVersion := rfl

theorem has_set_of_has {α : Type} {m : JsMap JsString α} {k k' : JsString} {v : α}
    (h : m.has k' = true) : (m.set k v).has k' = true := by
  rw [JsMap.has, JsMap.get?_set]
  split
  · rfl
  · exact h

theorem Records.expireProbe (h : Records cfg L s) (hi : Indexed s) (hc : L.clock now)
    {e : JsString × StoredProbe} (he : e ∈ s.probes.entries) (hdue : e.2.due now = true) :
    Records cfg L (s.expireProbe cfg now e) := by
  have hg : s.probes.get? e.1 = some e.2 := JsMap.get?_eq_some_iff.mpr he
  have hid : e.1 = e.2.probe.id := (hi.probes _ _ hg).1
  have hp := h.probes _ _ hg
  have h₁ : Records cfg L { s with probes := s.probes.set e.1 e.2.markExpired } :=
    { h with
      probes := h.probes.set hp
      known := fun k hk => has_set_of_has (h.known k hk) }
  have h₂ := h₁.incrementServiceVersion hp.1 e.2.probe.serviceId
  have hhas : (s.probes.set e.1 e.2.markExpired).has e.2.probe.id = true := by
    rw [← hid, JsMap.has, JsMap.get?_set_self]
    rfl
  have h₃ := h₂.setStatus (expiredStatus_ok h₂ hc e.2.probe.id) hhas
  rw [BrokerState.expireProbe, if_pos hdue]
  exact h₃.appendEvent (expiredEvent_ok hc _) hhas

theorem Records.expireDueProbes (h : Records cfg L s) (hi : Indexed s) (hc : L.clock now) :
    Records cfg L (s.expireDueProbes cfg now) :=
  (expireDueProbes_induction (P := fun s => Indexed s ∧ Records cfg L s) ⟨hi, h⟩
    fun _ _ ht he hdue => ⟨ht.1.expireProbe he hdue, ht.2.expireProbe ht.1 hc he hdue⟩).2

/-! ### Capabilities -/

theorem capabilitiesOk_nil : CapabilitiesOk [] := rfl

/-- A duplicate-free selection of acceptable capabilities is acceptable. -/
theorem CapabilitiesOk.subset {l l' : List JsString} (h : CapabilitiesOk l) (hnd : l'.Nodup)
    (hs : l' ⊆ l) : CapabilitiesOk l' := by
  obtain ⟨hl, -, hlen⟩ := boundedArray_self.mp h
  exact boundedArray_self.mpr
    ⟨fun c hc => hl c (hs hc), Nat.zero_le _, (hnd.length_le_of_subset hs).trans hlen⟩

theorem CapabilitiesOk.sublist {l l' : List JsString} (h : CapabilitiesOk l)
    (hs : l'.Sublist l) : CapabilitiesOk l' := by
  obtain ⟨hl, -, hlen⟩ := boundedArray_self.mp h
  exact boundedArray_self.mpr
    ⟨fun c hc => hl c (hs.subset hc), Nat.zero_le _, hs.length_le.trans hlen⟩

theorem CapabilitiesOk.normalize {l : List JsString} (h : CapabilitiesOk l) :
    CapabilitiesOk (normalizeAgentCapabilities l) := by
  have hknown : knownAgentCapabilities.Nodup := by decide
  have hu := OrderedSet.nodup_eraseDups l
  refine h.subset ?_ ?_
  · refine List.nodup_append.mpr ⟨hknown.filter _, ?_, ?_⟩
    · exact (List.mergeSort_perm _ _).nodup_iff.mpr (hu.filter _)
    · rintro a ha b hb rfl
      have hb := (List.mem_filter.mp (List.mem_mergeSort.mp hb)).2
      simp only [decide_eq_true_eq] at hb
      exact hb (List.mem_filter.mp ha).1
  · intro c hc
    rcases List.mem_append.mp hc with hc | hc
    · have := (List.mem_filter.mp hc).2
      exact List.mem_eraseDups.mp (by simpa using this)
    · exact List.mem_eraseDups.mp (List.mem_filter.mp (List.mem_mergeSort.mp hc)).1

theorem CapabilitiesOk.intersection {reports : JsMap JsString AgentCapabilityReport}
    (h : reports.All fun _ r => CapabilitiesOk r.capabilities) (now : ℕ) :
    CapabilitiesOk (activeCapabilityIntersection now reports) := by
  unfold activeCapabilityIntersection
  rcases hv : (activeReports now reports).values with - | ⟨first, rest⟩
  · exact capabilitiesOk_nil
  · have hm : first ∈ (activeReports now reports).values := by rw [hv]; exact List.mem_cons_self
    obtain ⟨k, hk⟩ := JsMap.mem_values_iff.mp hm
    exact ((h.filter _) k first (JsMap.get?_eq_some_iff.mpr hk)).sublist List.filter_sublist

theorem activeCapabilities_ok (h : Records cfg L s) (now : ℕ) (scope : ResourceScope)
    (serviceId : JsString) : CapabilitiesOk (s.activeCapabilities now scope serviceId) := by
  refine CapabilitiesOk.intersection ?_ now
  rcases hg : s.agentCapabilityReports.get? (serviceKey scope serviceId) with - | reports
  · exact .empty
  · exact h.reports _ _ hg

theorem nativeCapabilitiesOk : CapabilitiesOk nativeCapabilities := by
  unfold CapabilitiesOk
  decide

/-- The capabilities all instances of a group have. -/
theorem commonCapabilities_ok {group : List NativeInstanceRecord}
    (h : ∀ i ∈ group, ∀ c ∈ i.capabilities.getD [], c ∈ nativeCapabilities) :
    CapabilitiesOk (commonCapabilities group) := by
  cases group with
  | nil => exact capabilitiesOk_nil
  | cons first rest =>
    refine nativeCapabilitiesOk.subset ?_ fun c hc => ?_
    · exact (List.mergeSort_perm _ _).nodup_iff.mpr ((OrderedSet.nodup_eraseDups _).filter _)
    · have hc := (List.mem_filter.mp (List.mem_mergeSort.mp hc)).1
      exact h first List.mem_cons_self c (List.mem_eraseDups.mp hc)

/-! ### Native services -/

theorem latestInstance_mem {group : List NativeInstanceRecord} {i : NativeInstanceRecord}
    (h : latestInstance group = some i) : i ∈ group := by
  cases group with
  | nil => cases h
  | cons a rest =>
    obtain rfl := Option.some.inj h
    suffices ∀ (l : List NativeInstanceRecord) (b : NativeInstanceRecord),
        l.foldl (fun l r => if dateGe l.lastSeen r.lastSeen then l else r) b ∈ b :: l from
      this rest a
    intro l
    induction l with
    | nil => simp
    | cons c l ih =>
      intro b
      rw [List.foldl_cons]
      split
      · rcases List.mem_cons.mp (ih b) with h | h <;> simp [h]
      · exact List.mem_cons_of_mem _ (ih c)

/-- The record of a group of instances. -/
theorem nativeServiceRecord_ok {serviceId : JsString} {group : List NativeInstanceRecord}
    {record : ServiceRecord}
    (h : ∀ i ∈ group, ∃ k, InstanceOk L k i) (hscope : ∀ i ∈ group, i.scope = scope)
    (hid : ∀ i ∈ group, i.serviceId = serviceId)
    (hr : nativeServiceRecord scope serviceId group = some record) :
    ServiceOk L (serviceKey scope serviceId) record := by
  obtain ⟨latest, hl, rfl⟩ := Option.map_eq_some_iff.mp hr
  have hmem := latestInstance_mem hl
  obtain ⟨k, hk⟩ := h latest hmem
  refine ⟨rfl, hscope _ hmem ▸ hk.limit, hid _ hmem ▸ hk.parts.serviceId, ?_, rfl, ?_, rfl, ?_⟩
  · exact Or.inl (refine_self.mp hk.parts.lastSeen)
  · exact commonCapabilities_ok fun i hi => (h i hi).choose_spec.capabilities
  · refine optional_self.mpr fun l hl => ?_
    obtain rfl := Option.some.inj hl
    refine array_self.mpr fun b hb => ?_
    obtain ⟨i, hi, rfl⟩ := List.mem_map.mp (List.mem_eraseDups.mp (List.mem_mergeSort.mp hb))
    exact (h i hi).choose_spec.parts.buildId

theorem Records.rebuildNativeServices (h : Records cfg L s) (scope : ResourceScope) :
    Records cfg L (s.rebuildNativeServices scope) :=
  { h with
    services := services_rebuildNativeServices h.services fun serviceId group record _ hg hr =>
      nativeServiceRecord_ok
        (fun i hi => by
          obtain ⟨k, hk⟩ := JsMap.mem_values_iff.mp (hg i hi).1
          exact ⟨k, h.nativeInstances k i (JsMap.get?_eq_some_iff.mpr hk)⟩)
        (fun i hi => (hg i hi).2.1) (fun i hi => (hg i hi).2.2) hr }

/-! ### Every change keeps the records -/

theorem touched_ok {now : ℕ} {k : JsString} {r : ServiceRecord} {status : AgentStatus}
    (hr : ServiceOk L k r) (hc : L.clock now) (hs : agentStatusSchema status = some status) :
    ServiceOk L k { r with lastSeen := IsoDate.toISOString now, agentStatus := some status } :=
  { hr with
    lastSeen := Or.inr ⟨now, hc, rfl⟩
    agentStatus := by simp [Schema.optional, hs] }

/-- A service record that is touched keeps what the caller does not give. -/
theorem Records.touchService (h : Records cfg L s) (hc : L.clock now) (hL : L.scope scope)
    {serviceId : JsString} (hid : serviceIdSchema serviceId = some serviceId)
    (sdk : Option AgentSdk) {status : Option AgentStatus} {commitSha : Option JsString}
    (source : Option CommitSource) {capabilities : Option (List JsString)}
    (hstatus : ∀ a ∈ status, agentStatusSchema a = some a)
    (hcommit : ∀ c ∈ commitSha, sourceCommitSchema c = some c)
    (hcap : ∀ c ∈ capabilities, CapabilitiesOk c) :
    Records cfg L
      (s.touchService now serviceId sdk status commitSha source scope capabilities) := by
  refine h.setService ⟨rfl, hL, hid, Or.inr ⟨now, hc, rfl⟩, ?_, ?_, ?_, rfl⟩
  all_goals dsimp only
  · refine optional_self.mpr fun c hmem => ?_
    cases commitSha with
    | some c' => exact Option.some.inj hmem ▸ hcommit c' rfl
    | none =>
      obtain ⟨r, hg, hr⟩ := Option.bind_eq_some_iff.mp hmem
      exact optional_self.mp (h.services _ _ hg).commitSha c hr
  · cases capabilities with
    | some c => exact hcap c rfl
    | none =>
      rcases hg : s.services.get? (serviceKey scope serviceId) with - | r
      · exact capabilitiesOk_nil
      · exact (h.services _ _ hg).capabilities
  · refine optional_self.mpr fun a hmem => ?_
    cases status with
    | some a' => exact Option.some.inj hmem ▸ hstatus a' rfl
    | none =>
      obtain ⟨r, hg, hr⟩ := Option.bind_eq_some_iff.mp hmem
      exact optional_self.mp (h.services _ _ hg).agentStatus a hr

theorem Records.refresh (h : Records cfg L s) (serviceId : JsString) :
    Records cfg L (s.refreshServiceCapabilities now scope serviceId) := by
  rcases refreshServiceCapabilities_eq now scope serviceId s with he | ⟨r, reports, hg, hr, he⟩
  · rw [he]
    exact h
  · rw [he]
    have hok := h.services _ _ hg
    have hcaps := activeCapabilities_ok h now scope serviceId
    refine { h with services := h.services.set { hok with capabilities := hcaps }, reports := ?_ }
    rcases hr with rfl | ⟨old, hold, rfl⟩
    · exact h.reports
    · exact h.reports.set ((h.reports _ _ hold).filter _)

theorem Records.removeProbe (h : Records cfg L s) (id : JsString) :
    Records cfg L (s.removeProbe now id) :=
  { h with
    probes := h.probes.delete id
    known := by
      intro k hk
      simp only [BrokerState.removeProbe, JsMap.has, JsMap.get?_delete] at hk ⊢
      split at hk
      · simp at hk
      · next hne =>
        rw [if_neg hne]
        exact h.known k hk
    events := h.events.delete id
    statuses := h.statuses.delete id }

theorem Records.insertProbe (h : Records cfg L s) (hL : L.scope scope) {probe : ProbeDefinition}
    (hx : L.expiry (now + probe.ttlSeconds * 1000)) :
    Records cfg L (s.insertProbe now scope probe) :=
  { h with
    probes := h.probes.set ⟨hL, hx⟩
    known := by
      intro k hk
      by_cases hke : k = probe.id
      · simp [BrokerState.insertProbe, JsMap.has, hke]
      · refine has_set_of_has (h.known k ?_)
        rwa [JsMap.has, BrokerState.insertProbe, JsMap.get?_set_of_ne hke] at hk
    events := h.events.set ⟨Nat.zero_le _, by simp, by simp⟩ }

theorem setOrNew_ok (h : Records cfg L s) (hc : L.clock now) (hL : L.scope scope)
    (serviceId commitSha : JsString) : SetOk L (s.sourceMapSetOrNew now serviceId commitSha scope) := by
  unfold sourceMapSetOrNew
  rcases hg : s.sourceMapSets.get? (sourceMapKey scope serviceId commitSha) with - | m
  · exact ⟨hL, Or.inr ⟨now, hc, rfl⟩, .empty⟩
  · exact h.sourceMapSets _ _ hg

theorem Records.ingestEvent (h : Records cfg L s) {e : ProbeEvent}
    (he : probeEventSchema e = some e) (hp : s.probes.has e.probeId = true) :
    Records cfg L (s.ingestEvent cfg e) := by
  have h₁ := h.appendEvent (.managed he) hp
  obtain ⟨statuses, hst, heq⟩ := ingestEvent_eq cfg s e
  rw [heq]
  rcases hst with rfl | ⟨status, hst, rfl⟩
  · exact h₁
  refine h₁.setStatus ?_ hp
  obtain ⟨-, -, hts, hbody⟩ := probeEventSchema_self.mp he
  have hstamp : L.Stamp e.ts := Or.inl (refine_self.mp hts)
  unfold ingestedStatus at hst
  split at hst
  · next name detail metadata hb =>
    obtain rfl := Option.some.inj hst
    rw [hb, eventBodySchema_status_self] at hbody
    refine ⟨rfl, hstamp, hbody.1, fun ts hts => ?_, rfl⟩
    dsimp only at hts
    split at hts
    · exact Option.some.inj hts ▸ hstamp
    · exact armedAt_ok h ts hts
  · cases hst

theorem nativeStatusOf_ok {e : ProbeEvent} {status : ProbeStatus}
    (he : nativeProbeEventSchema e = some e) (hs : nativeStatusOf e = some status) :
    StatusOk L status := by
  obtain ⟨-, ⟨version, hv, hpos⟩, hts, hbody⟩ := nativeProbeEventSchema_self.mp he
  unfold nativeStatusOf at hs
  split at hs
  · next name detail metadata hb =>
    obtain rfl := Option.some.inj hs
    rw [hb, eventBodySchema_status_self] at hbody
    refine ⟨hbody.2, Or.inl (refine_self.mp hts), hbody.1, by simp, ?_⟩
    simp [hv, Schema.optional, hpos]
  · cases hs

theorem latestStatus_mem {l : List ProbeStatus} {status : ProbeStatus}
    (h : latestStatus l = some status) : status ∈ l :=
  List.mem_mergeSort.mp (List.mem_of_mem_head? h)

/-- The instant derived for a logical status is one of those it is derived from. -/
theorem derivedArmedAt_ok (h : Records cfg L s) {id : JsString} {l : List ProbeStatus}
    (hl : ∀ status ∈ l, StatusOk L status) {ts : JsString}
    (hts : s.deriveNativeArmedAt id l = some ts) : L.Stamp ts := by
  unfold deriveNativeArmedAt at hts
  split at hts
  · next armedAt ha => exact Option.some.inj hts ▸ armedAt_ok h armedAt ha
  · have hl' : ∀ status ∈ l.filter fun status => status.status = .armed, StatusOk L status :=
      fun status hs => hl status (List.mem_filter.mp hs).1
    generalize l.filter (fun status => status.status = .armed) = l' at hl' hts
    -- the fold keeps an instant of the statuses it has read
    refine List.foldlRecOn (motive := fun init : Option JsString => ∀ ts ∈ init, L.Stamp ts)
      l' _ (by simp) ?_ ts hts
    intro init hi status hmem ts hts
    have hst := (hl' status hmem).updatedAt
    cases init with
    | none => exact Option.some.inj hts ▸ hst
    | some e =>
      dsimp only at hts
      split at hts
      · exact Option.some.inj hts ▸ hst
      · exact Option.some.inj hts ▸ hi e rfl

theorem derivedStatus_ok (h : Records cfg L s) {stored : StoredProbe} {id : JsString}
    {status : ProbeStatus} (hd : s.derivedStatus scope stored id = some status) :
    StatusOk L status := by
  have hdef : ∀ status ∈ (s.instanceStatuses scope stored id).filterMap (fun x => x),
      StatusOk L status := by
    intro status hs
    obtain ⟨o, ho, rfl⟩ := List.mem_filterMap.mp hs
    obtain ⟨i, -, hi⟩ := List.mem_map.mp ho
    exact (h.nativeStatuses _ _ hi).status
  obtain ⟨chosen, hc, rfl⟩ := Option.map_eq_some_iff.mp hd
  have hok : StatusOk L chosen := by
    split at hc
    · exact hdef _ (List.mem_filter.mp (latestStatus_mem hc)).1
    · exact hdef _ (latestStatus_mem hc)
  split
  · exact hok
  · next ts hts =>
    exact { hok with
      armedAt := fun ts' ht => Option.some.inj ht ▸ derivedArmedAt_ok h hdef hts }

theorem ownProbe_eq_some {id : JsString} {stored : StoredProbe}
    (h : s.ownProbe id scope = some stored) :
    s.probes.get? id = some stored ∧ stored.scope = scope := by
  obtain ⟨hg, hs⟩ := Option.filter_eq_some_iff.mp h
  exact ⟨hg, by simpa using hs⟩

theorem Records.derive (h : Records cfg L s) (id : JsString) (scope : ResourceScope) :
    Records cfg L (s.deriveNativeLogicalStatus id scope) := by
  obtain ⟨statuses, hst, heq⟩ := deriveNativeLogicalStatus_eq id scope s
  rw [heq]
  rcases hst with rfl | ⟨stored, status, ho, -, hd, rfl⟩
  · exact h
  · refine h.setStatus (derivedStatus_ok h hd) ?_
    rw [JsMap.has, (ownProbe_eq_some ho).1]
    rfl

theorem Records.nativeEvent (h : Records cfg L s) {input : NativeIngestEnvelope}
    {i : NativeInstanceRecord} {e : ProbeEvent} (hv : EnvelopeParts input)
    (he : nativeProbeEventSchema e = some e) (hl : L.event e)
    (hp : s.probes.has e.probeId = true)
    (hi : s.nativeInstances.get? (nativeInstanceKey scope input.agentId input.instanceId) = some i) :
    Records cfg L (s.ingestNativeEvent cfg scope input e) := by
  have h₁ := h.appendEvent (.native he hl) hp
  rcases ingestNativeEvent_eq cfg scope input s e with heq | ⟨status, hn, -, heq⟩
  · rw [heq]
    exact h₁
  rw [heq]
  obtain ⟨hid, ⟨version, hver, hpos⟩, -, -⟩ := nativeProbeEventSchema_self.mp he
  -- the identifiers are those of the stored instance when these hold no NUL
  have hinst := h.nativeInstances _ _ hi
  have hsame : L.plainIds → scope = i.scope ∧ input.agentId = i.agentId ∧
      input.instanceId = i.instanceId := fun hpl =>
    nativeInstanceKey_plain (hinst.plain hpl).1 (hinst.plain hpl).2 hinst.key
  refine Records.derive (s := (s.appendEvent cfg e).withNativeStatus scope input _ status) ?_ _ _
  refine { h₁ with nativeStatuses := h₁.nativeStatuses.set ⟨nativeStatusOf_ok he hn, ?_⟩
                   assignmentVersions := fun hpl k hk => ?_ }
  · refine ⟨scope, e.probeId, version, input.agentId, input.instanceId, input.buildId, ?_,
      hid, hpos, hv.agentId, hv.instanceId, hv.buildId, fun hpl => ?_⟩
    · rw [statusKeyOf, hver, Option.getD_some]
    · obtain ⟨-, ha, hb⟩ := hsame hpl
      exact ha ▸ hb ▸ hinst.plain hpl
  · simp only [withNativeStatus] at hk
    split at hk
    · rcases has_foldl_bump (l := [input.agentId]) hk with hk | ⟨a, ha, rfl⟩
      · exact h.assignmentVersions hpl k hk
      · obtain rfl := List.mem_singleton.mp ha
        obtain ⟨hsc, ha, -⟩ := hsame hpl
        rw [hsc, ha]
        exact h.registered _ _ hi
    · exact h.assignmentVersions hpl k hk

theorem Records.register (h : Records cfg L s) {input : NativeAgentRegistration}
    {record : NativeAgentRecord} (hL : L.scope scope)
    (hv : nativeAgentRegistrationSchema input = some input)
    (hplain : L.plainIds → nul ∉ input.agentId)
    (parsed : persistedNativeAgentSchema
      { toNativeAgentRegistration := input, scope, lastSeen := IsoDate.toISOString now } =
        some record) :
    Records cfg L (s.registerNativeAgent now input scope).1 := by
  rw [registerNativeAgent_eq parsed]
  simp only [persistedNativeAgentSchema, hv, Option.bind_eq_bind, Option.bind_some,
    Option.bind_eq_some_iff, Option.pure_def, Option.some.injEq] at parsed
  obtain ⟨sc, hsc, ts, hts, rfl⟩ := parsed
  obtain rfl : sc = scope := kept_resourceScope _ hsc
  obtain rfl : ts = IsoDate.toISOString now := kept_refine _ _ hts
  exact { h with
    nativeAgents := h.nativeAgents.set
      ⟨rfl, hv, hsc, hL, Or.inl (refine_self.mp hts), hplain⟩
    registered := fun k i hi => has_set_of_has (h.registered k i hi)
    assignmentVersions := fun hpl k hk => by
      by_cases hke : k = nativeAgentKey sc input.agentId
      · simp [JsMap.has, hke]
      · refine has_set_of_has (h.assignmentVersions hpl k ?_)
        dsimp only at hk
        split at hk
        · exact hk
        · rwa [JsMap.has, JsMap.get?_set_of_ne hke] at hk }

/-- The instance of a record passes as it did when it was reported. -/
theorem instanceRecord_passes_parts (scope : ResourceScope) (agent : NativeAgentRecord) (agentId : JsString)
    {i : NativeInstance} (hi : nativeInstanceSchema i = some i) :
    InstanceParts (instanceRecord scope agent agentId i).toNativeInstance ∧
      nativeInstanceSchemaWith (fun c => some (some (c.getD []))) (instanceRecord scope agent agentId i).toNativeInstance =
        some (instanceRecord scope agent agentId i).toNativeInstance := by
  obtain ⟨hparts, -⟩ := nativeInstanceSchemaWith_self.mp hi
  have hparts' : InstanceParts (instanceRecord scope agent agentId i).toNativeInstance := { hparts with }
  exact ⟨hparts', nativeInstanceSchemaWith_self.mpr ⟨hparts', rfl⟩⟩

/-- An instance that passed its schema is stored as it is. -/
theorem instanceRecord_parsed {agent : NativeAgentRecord} {agentId : JsString}
    {i : NativeInstance} {record : NativeInstanceRecord}
    (hi : nativeInstanceSchema i = some i) (ha : agentIdSchema agentId = some agentId)
    (parsed : persistedNativeInstanceSchema (instanceRecord scope agent agentId i) = some record) :
    record = instanceRecord scope agent agentId i ∧ InstanceParts record.toNativeInstance := by
  obtain ⟨hparts, hself⟩ := instanceRecord_passes_parts scope agent agentId hi
  simp only [persistedNativeInstanceSchema, hself, Option.bind_eq_bind, Option.bind_some,
    Option.bind_eq_some_iff, Option.pure_def, Option.some.injEq] at parsed
  obtain ⟨sc, hsc, a, haa, rfl⟩ := parsed
  have hsc' : sc = scope := kept_resourceScope _ hsc
  have haa' : a = agentId := Kept.of_self ha haa
  subst hsc' haa'
  exact ⟨rfl, hparts⟩

theorem instanceRecord_ok {agent : NativeAgentRecord} {agentId : JsString}
    {i : NativeInstance} {record : NativeInstanceRecord} {k : JsString}
    (hagent : AgentOk L (nativeAgentKey scope agentId) agent)
    (hi : nativeInstanceSchema i = some i) (ha : agentIdSchema agentId = some agentId)
    (hplain : L.plainIds → nul ∉ i.instanceId)
    (hk : k = nativeInstanceKey scope agentId i.instanceId)
    (parsed : persistedNativeInstanceSchema (instanceRecord scope agent agentId i) = some record) :
    InstanceOk L k record := by
  obtain ⟨rfl, hparts⟩ := instanceRecord_parsed hi ha parsed
  obtain ⟨hsc, hid⟩ := nativeAgentKey_inj.mp hagent.key
  obtain ⟨-, hcaps⟩ := nativeInstanceSchemaWith_self.mp hi
  refine ⟨hk, hparts, rfl, hsc ▸ hagent.scope, hsc ▸ hagent.limit, ha, ?_,
    fun hpl => ⟨hid ▸ hagent.plain hpl, hplain hpl⟩⟩
  have hself : ∀ l, boundedArray nativeCapabilitySchema 1 32 l = some l →
      ∀ c ∈ l, c ∈ nativeCapabilities := fun l hl c hc => by
    simpa [nativeCapabilitySchema] using (boundedArray_self.mp hl).1 c hc
  cases hc : i.capabilities with
  | some l =>
    rw [hc] at hcaps
    simpa [instanceRecord, hc] using hself l (optional_self.mp hcaps l rfl)
  | none =>
    have hreg := hagent.registration
    obtain ⟨⟨_, _, caps, _⟩, _, _⟩ := agent
    simp only [nativeAgentRegistrationSchema, Option.bind_eq_bind, Option.bind_eq_some_iff,
      Option.pure_def, Option.some.injEq, NativeAgentRegistration.mk.injEq] at hreg
    obtain ⟨_, -, _, -, _, hcaps, _, -, -, -, rfl, -⟩ := hreg
    simpa [instanceRecord, hc] using hself _ hcaps

theorem Records.replace (h : Records cfg L s) {agentId : JsString}
    {instances : List NativeInstance} {allowed : List JsString} {agent : NativeAgentRecord}
    (hc : L.clock now) (ha : agentIdSchema agentId = some agentId)
    (hv : ∀ i ∈ instances, nativeInstanceSchema i = some i)
    (hplain : L.plainIds → ∀ i ∈ instances, nul ∉ i.instanceId)
    (registered : s.nativeAgents.get? (nativeAgentKey scope agentId) = some agent)
    (checked : checkInstances (s.ownedByAnother scope agentId) allowed [] instances = .ok ()) :
    Records cfg L (s.replaceNativeInstances now agentId instances scope allowed).1 := by
  have hagent := h.nativeAgents _ _ registered
  obtain ⟨hsc, hid⟩ := nativeAgentKey_inj.mp hagent.key
  have hhas : s.nativeAgents.has (nativeAgentKey scope agentId) = true := by
    rw [JsMap.has, registered]
    rfl
  obtain ⟨m, hm, hall⟩ := setInstances_eq scope agent agentId instances
    (s.dropInstances scope agentId (instances.map (·.instanceId)))
  -- the stored instances, before the rest of the settlement
  have h₁ : Records cfg L { s with nativeInstances := m } :=
    { h with
      nativeInstances := hall _ (h.nativeInstances.filter _) fun i hi record hr =>
        instanceRecord_ok hagent (hv i hi) ha (fun hpl => hplain hpl i hi) rfl hr
      registered := hall _ (h.registered.filter _) fun i hi record hr => by
        obtain ⟨rfl, -⟩ := instanceRecord_parsed (hv i hi) ha hr
        exact hhas }
  have hu : Records cfg L ((s.dropInstances scope agentId
      (instances.map (·.instanceId))).setInstances scope agent agentId instances).1 := by
    rw [hm]
    exact h₁
  have hreg : ((s.dropInstances scope agentId (instances.map (·.instanceId))).setInstances scope
      agent agentId instances).1.nativeAgents.has (nativeAgentKey scope agentId) = true := by
    rw [hm]
    exact hhas
  rw [replaceNativeInstances_eq registered checked]
  generalize ((s.dropInstances scope agentId (instances.map (·.instanceId))).setInstances scope
    agent agentId instances) = t at hu hreg ⊢
  split
  · exact hu
  · refine Records.rebuildNativeServices ?_ scope
    exact { hu with
      nativeAgents := hu.nativeAgents.set { hagent with lastSeen := Or.inr ⟨now, hc, rfl⟩ }
      registered := fun k i hi => has_set_of_has (hu.registered k i hi)
      assignmentVersions := fun hpl k hk => by
        dsimp only at hk
        refine has_set_of_has ?_
        split at hk
        · rcases has_foldl_bump (l := [agentId]) hk with hk | ⟨a, ha, rfl⟩
          · exact hu.assignmentVersions hpl k hk
          · obtain rfl := List.mem_singleton.mp ha
            exact hreg
        · exact hu.assignmentVersions hpl k hk }

/-- **Every change within the limits keeps the records.** -/
theorem Records.change (h : Records cfg L s) (hi : Indexed s) (hv : r.Valid)
    (hL : L.Admits now scope r) (hc : Change cfg now scope r s t) : Records cfg L t := by
  cases hc with
  | expire => exact h.expireDueProbes hi hL.clock
  | refresh serviceId => exact h.refresh serviceId
  | touch serviceId since commitSha isPoll =>
    subst isPoll
    exact h.touchService hL.clock hL.scope hv.1 none none (by simp) (by simp) (by simp)
  | failCreate draws input isCreate => exact h.incrementServiceVersion hL.scope _
  | create draws input compiled id probe isCreate compiles drawn parsed =>
    obtain ⟨-, -, -, httl⟩ := newDefinition_parsed parsed
    obtain ⟨_, _, -, -, rfl⟩ := compileProbeInput_eq_ok compiles
    refine (h.incrementServiceVersion hL.scope _).insertProbe hL.scope ?_
    rw [httl]
    exact hL.expiry draws input isCreate
  | deleteExpired id => exact h.removeProbe id
  | deleteLive id stored _ found own =>
    exact (h.incrementServiceVersion hL.scope _).removeProbe id
  | claim serviceId commitSha uploaderId isStatus =>
    subst isStatus
    obtain ⟨hid, hcm, hup⟩ := hv
    have hlease : LeaseOk (sourceMapKey scope serviceId commitSha)
        ⟨uploaderId, now + sourceMapLeaseMs⟩ := ⟨_, _, _, rfl, hid, hcm, hup⟩
    rcases clearForeignMaps_eq now (sourceMapKey scope serviceId commitSha) uploaderId s with
      he | ⟨m, hg, he⟩
    · rw [he]
      exact { h with leases := h.leases.set hlease }
    · rw [he]
      have hm := h.sourceMapSets _ _ hg
      exact { h with
        sourceMapSets := h.sourceMapSets.set ⟨hm.scope, Or.inr ⟨now, hL.clock, rfl⟩, .empty⟩
        leases := h.leases.set hlease }
  | renew serviceId commitSha uploaderId held =>
    rcases hg : s.sourceMapLeases.get? (sourceMapKey scope serviceId commitSha) with - | l
    · rw [hg] at held
      cases held
    · rw [hg] at held
      simp only [holdsLease, Bool.and_eq_true, decide_eq_true_eq] at held
      have hl := h.leases _ _ hg
      rw [LeaseOk, held.2] at hl
      exact { h with leases := h.leases.set hl }
  | upload input isUpload leased =>
    have hm := setOrNew_ok h hL.clock hL.scope input.serviceId input.commitSha
    have hnow : L.Stamp (IsoDate.toISOString now) := Or.inr ⟨now, hL.clock, rfl⟩
    exact { h with sourceMapSets := h.sourceMapSets.set ⟨hm.scope, hnow, hm.maps.set hnow⟩ }
  | complete serviceId commitSha uploaderId isComplete marked =>
    subst marked
    have hm := setOrNew_ok h hL.clock hL.scope serviceId commitSha
    have hnow : L.Stamp (IsoDate.toISOString now) := Or.inr ⟨now, hL.clock, rfl⟩
    have h₁ : Records cfg L (s.markComplete now serviceId commitSha scope) :=
      { h with
        sourceMapSets := h.sourceMapSets.set ⟨hm.scope, hnow, hm.maps⟩
        leases := h.leases.delete _ }
    have h₂ := h₁.incrementServiceVersion hL.scope serviceId
    rw [dropSourceMaps_eq]
    exact { h₂ with
      sourceMapSets := JsMap.All.foldl (fun _ k _ hm => hm.delete k) h₂.sourceMapSets
      leases := JsMap.All.foldl (fun _ k _ hm => hm.delete k) h₂.leases }
  | report input isIngest =>
    subst isIngest
    have hp := ingestSchema_self hv
    have h₁ : Records cfg L (s.reportAgentCapabilities now scope input.serviceId
        (reportingAgent input) (input.capabilities.getD [])) := by
      refine { h with reports := h.reports.set (JsMap.All.filter (JsMap.All.set ?_ ?_) _) }
      · rcases hg : s.agentCapabilityReports.get? (serviceKey scope input.serviceId) with - | old
        · exact .empty
        · exact h.reports _ _ hg
      · exact CapabilitiesOk.normalize hp.capabilities
    refine h₁.touchService hL.clock hL.scope hp.serviceId _ _ ?_ ?_ ?_
    · exact fun a ha => Option.some.inj ha ▸ hp.agentStatus
    · exact fun c hc => Option.some.inj hc ▸ hp.commitSha
    · exact fun c hc => Option.some.inj hc ▸ activeCapabilities_ok h₁ _ _ _
  | event input e isIngest mem checked =>
    subst isIngest
    refine h.ingestEvent ((ingestSchema_self hv).events e mem) ?_
    rcases hg : s.probes.get? e.probeId with - | stored
    · rw [hg] at checked
      cases checked
    · rw [JsMap.has, hg]
      rfl
  | register input record isRegister parsed =>
    subst isRegister
    exact h.register hL.scope hv (fun hpl => hL.agentId hpl input rfl) parsed
  | replace agentId instances allowed agent isReplace registered checked =>
    subst isReplace
    exact h.replace hL.clock hv.1 (boundedArray_self.mp hv.2).1
      (fun hpl => hL.instanceIds hpl agentId instances allowed rfl) registered checked
  | prune => exact { h with }
  | health => exact { h with }
  | nativeEvent input i stored e isIngest mem inst target found checked =>
    subst isIngest
    have hp := nativeIngestEnvelopeSchema_self hv
    refine h.nativeEvent hp (hp.events e mem) (hL.events input rfl e mem) ?_ inst
    rw [JsMap.has, found]
    rfl
  | touchNative input isIngest =>
    subst isIngest
    rcases touchNativeService_eq now scope input s with he | ⟨service, hg, he⟩
    · rw [he]
      exact h
    · rw [he]
      refine h.setService (touched_ok (h.services _ _ hg) hL.clock ?_)
      exact agentStatusSchema_of_native (nativeIngestEnvelopeSchema_self hv).agentStatus

/-- **A request within the limits keeps the records.** -/
theorem Records.handle (h : Records cfg L s) (hi : Indexed s) (hv : r.Valid)
    (hL : L.Admits now scope r) : Records cfg L (s.handle cfg now scope r).1 := by
  have hc := handle_changes cfg now scope r s
  generalize (s.handle cfg now scope r).1 = t at hc ⊢
  suffices Indexed t ∧ Records cfg L t from this.2
  induction hc with
  | refl => exact ⟨hi, h⟩
  | tail _ hc ih => exact ⟨ih.1.change hv hc, ih.2.change ih.1 hv hL hc⟩
