/-
LiveProbe/Core.lean

The core of the state: probes, service versions, source-map sets and leases,
the maps a poll is answered from.  Most changes leave the core alone
(`core_*`); the others keep it well indexed.

`Indexed` says that every core entry sits under the key made of its own
fields, that the texts of those fields are what their schemas put out, and
that no completed set is under lease.  It holds of every state a broker
reaches (`Indexed.handle`, `Indexed.loadSnapshot`).
-/
import LiveProbe.Changes

open JsString Broker Protocol BrokerState

namespace BrokerState

/-- The maps a poll is answered from. -/
def core (s : BrokerState) :
    JsMap JsString StoredProbe × JsMap JsString ScopedServiceVersion ×
      JsMap JsString SourceMapSet × JsMap JsString SourceMapLease :=
  (s.probes, s.serviceVersions, s.sourceMapSets, s.sourceMapLeases)

variable {cfg : Config} {now : ℕ} {scope : ResourceScope} {r : Request} {s t : BrokerState}

/-! ### Changes that leave the core alone -/

@[simp] theorem core_appendEvent (e : ProbeEvent) : (s.appendEvent cfg e).core = s.core := rfl

@[simp] theorem core_touchService (serviceId : JsString) (sdk : Option AgentSdk)
    (status : Option AgentStatus) (commit : Option JsString) (source : Option CommitSource)
    (capabilities : Option (List JsString)) :
    (s.touchService now serviceId sdk status commit source scope capabilities).core = s.core := rfl

@[simp] theorem core_refreshServiceCapabilities (serviceId : JsString) :
    (s.refreshServiceCapabilities now scope serviceId).core = s.core := by
  unfold refreshServiceCapabilities
  split <;> rfl

@[simp] theorem core_ingestAgent (input : IngestInput) :
    (s.ingestAgent now input scope).core = s.core := rfl

@[simp] theorem core_ingestEvent (e : ProbeEvent) : (s.ingestEvent cfg e).core = s.core := by
  simp only [ingestEvent]
  split <;> rfl

@[simp] theorem core_registerNativeAgent (input : NativeAgentRegistration) :
    (s.registerNativeAgent now input scope).1.core = s.core := by
  unfold registerNativeAgent
  split <;> rfl

@[simp] theorem core_setInstances (agent : NativeAgentRecord) (agentId : JsString)
    (l : List NativeInstance) : (s.setInstances scope agent agentId l).1.core = s.core := by
  induction l generalizing s with
  | nil => rfl
  | cons i l ih =>
    unfold setInstances
    split
    · rfl
    · rw [ih]
      rfl

@[simp] theorem core_settleInstances (agent : NativeAgentRecord) (agentId : JsString)
    (changed : Bool) : (s.settleInstances now scope agent agentId changed).core = s.core := rfl

@[simp] theorem core_dropInstances (agentId : JsString) (ids : List JsString) :
    (s.dropInstances scope agentId ids).core = s.core := rfl

@[simp] theorem core_replaceNativeInstances (agentId : JsString) (instances : List NativeInstance)
    (allowed : List JsString) :
    (s.replaceNativeInstances now agentId instances scope allowed).1.core = s.core := by
  unfold replaceNativeInstances
  split
  · rfl
  split
  · rfl
  next agent _ _ _ =>
  have h : ((s.dropInstances scope agentId (instances.map (·.instanceId))).setInstances scope agent
      agentId instances).1.core = s.core := by
    rw [core_setInstances, core_dropInstances]
  simp only
  split
  · next ht => rw [ht] at h; exact h
  · next ht => rw [ht] at h; exact h

@[simp] theorem core_deriveNativeLogicalStatus (id : JsString) :
    (s.deriveNativeLogicalStatus id scope).core = s.core := by
  unfold deriveNativeLogicalStatus
  repeat' split
  all_goals rfl

@[simp] theorem core_ingestNativeEvent (input : NativeIngestEnvelope) (e : ProbeEvent) :
    (s.ingestNativeEvent cfg scope input e).core = s.core := by
  simp only [ingestNativeEvent]
  split
  · rfl
  · simp only [recordNativeStatus]
    split
    · rfl
    · rw [core_deriveNativeLogicalStatus]
      rfl

@[simp] theorem core_touchNativeService (input : NativeIngestEnvelope) :
    (s.touchNativeService now scope input).core = s.core := by
  unfold touchNativeService
  split <;> rfl

/-! ### The index invariant -/

/-- A stored probe sits under its identifier and is a parsed definition. -/
def ProbeIndexed (k : JsString) (p : StoredProbe) : Prop :=
  k = p.probe.id ∧ probeDefinitionSchema p.probe = some p.probe

def VersionIndexed (k : JsString) (v : ScopedServiceVersion) : Prop :=
  k = serviceKey v.scope v.serviceId ∧ serviceIdSchema v.serviceId = some v.serviceId

structure SetIndexed (k : JsString) (m : SourceMapSet) : Prop where
  key : k = sourceMapKey m.scope m.serviceId m.commitSha
  serviceId : serviceIdSchema m.serviceId = some m.serviceId
  commitSha : sourceCommitSchema m.commitSha = some m.commitSha
  maps : m.maps.All fun p f => p = f.mapPath ∧ sourceMapPathSchema f.mapPath = some f.mapPath

/-- Whether the set of a key is complete. -/
def isComplete (s : BrokerState) (key : JsString) : Bool := (s.sourceMapSets.get? key).any (·.complete)

/-- Every core entry sits under the key of its fields, and no complete set is
under lease. -/
structure Indexed (s : BrokerState) : Prop where
  probes : s.probes.All ProbeIndexed
  serviceVersions : s.serviceVersions.All VersionIndexed
  sourceMapSets : s.sourceMapSets.All SetIndexed
  leases : s.sourceMapLeases.All fun k _ => s.isComplete k = false

theorem Indexed.init : Indexed {} := ⟨.empty, .empty, .empty, .empty⟩

/-- The invariant speaks of the core only. -/
theorem Indexed.congr (hs : Indexed s) (h : t.core = s.core) : Indexed t := by
  simp only [core, Prod.mk.injEq] at h
  obtain ⟨hp, hv, hm, hl⟩ := h
  refine ⟨hp ▸ hs.probes, hv ▸ hs.serviceVersions, hm ▸ hs.sourceMapSets, ?_⟩
  intro k l hk
  rw [hl] at hk
  rw [isComplete, hm]
  exact hs.leases k l hk

/-- The identifier of the service has passed with the definition. -/
theorem serviceId_of_parsed {p : ProbeDefinition} (h : probeDefinitionSchema p = some p) :
    serviceIdSchema p.serviceId = some p.serviceId := by
  simp only [probeDefinitionSchema, compiledInputSchema, Option.bind_eq_bind,
    Option.bind_eq_some_iff, Option.pure_def, Option.some.injEq] at h
  obtain ⟨_, ⟨sid, hsid, _, _, _, _, _, _, _, _, _, _, _, _, _, _, _, _, _, _, rfl⟩, _, _, _, _,
    _, _, _, _, _, _, rfl⟩ := h
  exact stable_serviceIdSchema hsid

theorem probeId_of_parsed {p : ProbeDefinition} (h : probeDefinitionSchema p = some p) :
    probeIdSchema p.id = some p.id := by
  simp only [probeDefinitionSchema, Option.bind_eq_bind, Option.bind_eq_some_iff,
    Option.pure_def, Option.some.injEq] at h
  obtain ⟨_, -, id, hid, _, -, _, -, _, -, _, -, rfl⟩ := h
  exact stable_probeIdSchema hid

/-- A probe is stored under an identifier that passes the schema. -/
theorem Indexed.probeId (hs : Indexed s) {k : JsString} {p : StoredProbe}
    (h : s.probes.get? k = some p) : probeIdSchema k = some k := by
  obtain ⟨rfl, hp⟩ := hs.probes k p h
  exact probeId_of_parsed hp

/-- The identifier and the version of a new definition pass its schema unchanged. -/
theorem newDefinition_parsed {c : CompiledInput} {id : JsString} {version : ℕ}
    {probe : ProbeDefinition}
    (h : probeDefinitionSchema (newDefinition c id version) = some probe) :
    probe.id = id ∧ probe.version = version ∧
      serviceIdSchema c.serviceId = some probe.serviceId ∧
      probe.ttlSeconds = c.ttlSeconds := by
  simp only [probeDefinitionSchema, compiledInputSchema, newDefinition, Option.bind_eq_bind,
    Option.bind_eq_some_iff, Option.pure_def, Option.some.injEq] at h
  obtain ⟨_, ⟨sid, hsid, _, _, _, _, _, _, _, _, _, _, _, httl, _, _, _, _, _, _, rfl⟩, _, hid,
    _, hver, _, _, _, _, _, _, rfl⟩ := h
  refine ⟨?_, ?_, hsid, ?_⟩
  · exact (Schema.refine_eq_some.mp hid).2.symm
  · exact (Schema.positiveInt_eq_some.mp hver).2.symm
  · exact (Schema.positiveInt_eq_some.mp httl).2.symm

theorem serviceId_of_createInput {input : CreateProbeInput}
    (h : createProbeInputSchema input = some input) :
    serviceIdSchema input.serviceId = some input.serviceId := by
  simp only [createProbeInputSchema, Option.bind_eq_bind, Option.bind_eq_some_iff,
    Option.pure_def, Option.some.injEq] at h
  obtain ⟨_, hs, _, _, _, _, _, _, _, _, _, _, _, _, _, _, _, _, _, _, rfl⟩ := h
  exact stable_serviceIdSchema hs

/-! ### Every change keeps the index -/

/-- The version is stored under the key of its own service. -/
theorem Indexed.incrementServiceVersion (hs : Indexed s) (scope : ResourceScope)
    {serviceId : JsString} (h : serviceIdSchema serviceId = some serviceId) :
    Indexed (s.incrementServiceVersion serviceId scope) where
  probes := hs.probes
  serviceVersions := hs.serviceVersions.set ⟨rfl, h⟩
  sourceMapSets := hs.sourceMapSets
  leases := hs.leases

/-- An expired probe keeps its place, and its service gets a new version. -/
theorem Indexed.expireProbe (hs : Indexed s) {e : JsString × StoredProbe}
    (he : e ∈ s.probes.entries) (hdue : e.2.due now = true) :
    Indexed (s.expireProbe cfg now e) := by
  have hp : ProbeIndexed e.1 e.2 := hs.probes _ _ (JsMap.get?_eq_some_iff.mpr he)
  have h₁ : Indexed { s with probes := s.probes.set e.1 e.2.markExpired } :=
    ⟨hs.probes.set hp, hs.serviceVersions, hs.sourceMapSets, hs.leases⟩
  -- the service of the probe passed with its definition
  have h₂ := h₁.incrementServiceVersion e.2.scope (serviceId_of_parsed hp.2)
  rw [BrokerState.expireProbe, if_pos hdue]
  exact h₂.congr rfl

/-- By induction on the expiries. -/
theorem Indexed.expireDueProbes (hs : Indexed s) : Indexed (s.expireDueProbes cfg now) :=
  expireDueProbes_induction hs fun _ _ ht he hdue => ht.expireProbe he hdue

/-- Nothing is stored of a probe that is removed. -/
theorem Indexed.removeProbe (hs : Indexed s) (id : JsString) : Indexed (s.removeProbe now id) where
  probes := hs.probes.delete id
  serviceVersions := hs.serviceVersions
  sourceMapSets := hs.sourceMapSets
  leases := hs.leases

/-- A lease is given for an incomplete set only. -/
theorem Indexed.grantLease (hs : Indexed s) {key uploaderId : JsString}
    (h : s.isComplete key = false) : Indexed (s.grantLease now key uploaderId) where
  probes := hs.probes
  serviceVersions := hs.serviceVersions
  sourceMapSets := hs.sourceMapSets
  leases := hs.leases.set h

/-- Replacing a set by one that is not complete endangers no lease. -/
theorem Indexed.setIncomplete (hs : Indexed s) {key : JsString} {m : SourceMapSet}
    (hm : SetIndexed key m) (hc : m.complete = false) :
    Indexed { s with sourceMapSets := s.sourceMapSets.set key m } where
  probes := hs.probes
  serviceVersions := hs.serviceVersions
  sourceMapSets := hs.sourceMapSets.set hm
  leases := by
    intro k l hl
    -- the new set is incomplete, the others are as they were
    have := hs.leases k l hl
    rw [isComplete, JsMap.get?_set]
    split
    · simp [hc]
    · exact this

/-- The set that is cleared stays incomplete. -/
theorem Indexed.clearForeignMaps (hs : Indexed s) {key : JsString} (now : ℕ)
    (uploaderId : JsString) (h : s.isComplete key = false) :
    Indexed (s.clearForeignMaps now key uploaderId) ∧
      (s.clearForeignMaps now key uploaderId).isComplete key = false := by
  rcases hg : s.sourceMapSets.get? key with - | m
  · simp only [BrokerState.clearForeignMaps, hg]
    exact ⟨hs, h⟩
  simp only [BrokerState.clearForeignMaps, hg]
  split
  · exact ⟨hs, h⟩
  · -- maps of other uploaders are dropped, and the set stays incomplete
    have hm := hs.sourceMapSets _ _ hg
    have hc : m.complete = false := by simpa [isComplete, hg] using h
    refine ⟨hs.setIncomplete ⟨hm.key, hm.serviceId, hm.commitSha, .empty⟩ hc, ?_⟩
    simp [isComplete, hc]

/-- The set an upload or a completion starts from is indexed. -/
theorem Indexed.sourceMapSetOrNew (hs : Indexed s) (now : ℕ) (scope : ResourceScope)
    {serviceId commitSha : JsString}
    (hid : serviceIdSchema serviceId = some serviceId)
    (hc : sourceCommitSchema commitSha = some commitSha) :
    SetIndexed (sourceMapKey scope serviceId commitSha)
      (s.sourceMapSetOrNew now serviceId commitSha scope) := by
  unfold BrokerState.sourceMapSetOrNew
  rcases hg : s.sourceMapSets.get? (sourceMapKey scope serviceId commitSha) with - | m
  · exact ⟨rfl, hid, hc, .empty⟩
  · exact hs.sourceMapSets _ _ hg

/-- The set is complete under the key that says whose it is. -/
theorem Indexed.markComplete (hs : Indexed s) {serviceId commitSha : JsString}
    (hid : serviceIdSchema serviceId = some serviceId)
    (hc : sourceCommitSchema commitSha = some commitSha) :
    Indexed (s.markComplete now serviceId commitSha scope) where
  probes := hs.probes
  serviceVersions := hs.serviceVersions
  sourceMapSets := by
    obtain ⟨hk, hi, hcm, hm⟩ := hs.sourceMapSetOrNew now scope hid hc
    exact hs.sourceMapSets.set ⟨hk, hi, hcm, hm⟩
  leases := by
    intro k l hl
    -- the lease of the set is gone
    simp only [BrokerState.markComplete, JsMap.get?_delete] at hl
    split at hl
    · cases hl
    · next hk =>
      rw [isComplete, BrokerState.markComplete, JsMap.get?_set_of_ne hk]
      exact hs.leases k l hl

/-- A dropped set goes with its lease. -/
theorem Indexed.dropSourceMaps (hs : Indexed s) (keys : List JsString) :
    Indexed (s.dropSourceMaps keys) := by
  unfold BrokerState.dropSourceMaps
  induction keys generalizing s with
  | nil => exact hs
  | cons key keys ih =>
    -- a dropped set takes its lease with it
    refine ih ⟨hs.probes, hs.serviceVersions, hs.sourceMapSets.delete key, ?_⟩
    intro k l hl
    rw [JsMap.get?_delete] at hl
    split at hl
    · cases hl
    · next hk =>
      rw [isComplete, JsMap.get?_delete_of_ne hk]
      exact hs.leases k l hl

/-- One case for each elementary change. -/
theorem Indexed.change (hs : Indexed s) (hv : r.Valid) (h : Change cfg now scope r s t) :
    Indexed t := by
  cases h with
  | expire => exact hs.expireDueProbes
  | refresh serviceId => exact hs.congr (core_refreshServiceCapabilities serviceId)
  | touch serviceId => exact hs.congr rfl
  | failCreate draws input isCreate =>
    subst isCreate
    exact hs.incrementServiceVersion scope (serviceId_of_createInput hv)
  | create draws input compiled id probe isCreate compiles drawn parsed =>
    subst isCreate
    -- the definition that is stored has just been read
    have h₁ := hs.incrementServiceVersion scope (serviceId_of_createInput hv)
    exact ⟨h₁.probes.set ⟨rfl, stable_probeDefinitionSchema parsed⟩, h₁.serviceVersions,
      h₁.sourceMapSets, h₁.leases⟩
  | deleteExpired id => exact hs.removeProbe id
  | deleteLive id stored _ found =>
    -- the service of a stored probe has passed
    have hp := hs.probes _ _ found
    exact (hs.incrementServiceVersion scope (serviceId_of_parsed hp.2)).removeProbe id
  | claim serviceId commitSha uploaderId isStatus incomplete =>
    obtain ⟨h₁, h₂⟩ := hs.clearForeignMaps now uploaderId incomplete
    exact h₁.grantLease h₂
  | renew serviceId commitSha uploaderId held =>
    refine hs.grantLease ?_
    rcases hl : s.sourceMapLeases.get? (sourceMapKey scope serviceId commitSha) with - | l
    · rw [hl] at held; cases held
    · exact hs.leases _ _ hl
  | upload input isUpload leased =>
    subst isUpload
    obtain ⟨hid, hc, -, hpath⟩ := hv
    obtain ⟨hk, hi, hcm, hm⟩ := hs.sourceMapSetOrNew now scope hid hc
    exact hs.setIncomplete ⟨hk, hi, hcm, hm.set ⟨rfl, hpath⟩⟩ rfl
  | complete serviceId commitSha uploaderId isComplete marked =>
    subst isComplete marked
    obtain ⟨hid, hc, -⟩ := hv
    exact ((hs.markComplete hid hc).incrementServiceVersion scope hid).dropSourceMaps _
  | report input => exact hs.congr rfl
  | event input e => exact hs.congr (core_ingestEvent e)
  | register input => exact hs.congr (core_registerNativeAgent input)
  | replace agentId instances allowed =>
    exact hs.congr (core_replaceNativeInstances agentId instances allowed)
  | prune => exact hs.congr rfl
  | health => exact hs.congr rfl
  | nativeEvent input i stored e => exact hs.congr (core_ingestNativeEvent input e)
  | touchNative input => exact hs.congr (core_touchNativeService input)

/-- **A request keeps the core indexed.** -/
theorem Indexed.handle (hs : Indexed s) (hv : r.Valid) :
    Indexed (s.handle cfg now scope r).1 := by
  have h := handle_changes cfg now scope r s
  generalize (s.handle cfg now scope r).1 = t at h ⊢
  induction h with
  | refl => exact hs
  | tail _ hc ih => exact ih.change hv hc

end BrokerState
