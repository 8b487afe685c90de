/-
LiveProbe/Restore.lean

Loading a snapshot restores the core: probes, service versions and source-map
sets are those of the state it was taken from, and no lease is left
(`core_refill`).

No schema rewrites a core entry of an indexed state (`Schema.Kept`), so all
that can go wrong is that the snapshot is rejected, and then there is none.
-/
import LiveProbe.Records

open JsString Schema Broker Protocol BrokerState

namespace BrokerState

variable {cfg : Config} {now : ℕ} {s t : BrokerState} {a b : BrokerSnapshot}

/-! ### Core entries are kept -/

theorem ProbeIndexed.kept {k : JsString} {p : StoredProbe} (hp : ProbeIndexed k p) :
    Kept storedProbeSchema p := fun q h => by
  simp only [storedProbeSchema, Option.bind_eq_bind, Option.bind_eq_some_iff, Option.pure_def,
    Option.some.injEq] at h
  obtain ⟨_, h₁, _, h₂, _, h₃, rfl⟩ := h
  rw [kept_resourceScope _ h₁, Kept.of_self hp.2 h₂, kept_nonnegativeInt _ h₃]

theorem VersionIndexed.kept {k : JsString} {v : ScopedServiceVersion} (hv : VersionIndexed k v) :
    Kept serviceVersionSchema v := fun q h => by
  simp only [serviceVersionSchema, Option.bind_eq_bind, Option.bind_eq_some_iff, Option.pure_def,
    Option.some.injEq] at h
  obtain ⟨_, h₁, _, h₂, _, h₃, rfl⟩ := h
  rw [kept_resourceScope _ h₁, Kept.of_self hv.2 h₂, kept_nonnegativeInt _ h₃]

theorem SetIndexed.kept {k : JsString} {m : SourceMapSet} (hm : SetIndexed k m) :
    Kept sourceMapSetSchema (sourceMapSetEntry m) := fun q h => by
  simp only [sourceMapSetSchema, sourceMapSetEntry, Option.bind_eq_bind, Option.bind_eq_some_iff,
    Option.pure_def, Option.some.injEq] at h
  obtain ⟨_, h₁, _, h₂, _, h₃, _, h₄, _, h₅, rfl⟩ := h
  have hmaps : Kept (array storedSourceMapSchema) m.maps.values := Kept.array fun f hf => by
    obtain ⟨p, hp⟩ := JsMap.mem_values_iff.mp hf
    obtain ⟨-, hpath⟩ := hm.maps p f (JsMap.get?_eq_some_iff.mpr hp)
    intro g hg
    simp only [storedSourceMapSchema, Option.bind_eq_bind, Option.bind_eq_some_iff,
      Option.pure_def, Option.some.injEq] at hg
    obtain ⟨_, g₁, _, g₂, rfl⟩ := hg
    rw [Kept.of_self hpath g₁, kept_refine _ _ g₂]
  rw [kept_resourceScope _ h₁, Kept.of_self hm.serviceId h₂, Kept.of_self hm.commitSha h₃,
    kept_refine _ _ h₄, hmaps h₅]
  rfl

/-- A set is the same after it was written and read. -/
theorem SetIndexed.sourceMapSetOf_entry {k : JsString} {m : SourceMapSet} (hm : SetIndexed k m) :
    sourceMapSetOf (sourceMapSetEntry m) = m := by
  have hmaps : JsMap.ofEntries (m.maps.values.map fun f => (f.mapPath, f)) = m.maps :=
    JsMap.ofEntries_values (f := fun f => f) (fun p f h => (hm.maps p f h).1) fun _ _ _ => rfl
  cases m
  simp only [sourceMapSetOf, sourceMapSetEntry, hmaps]

/-! ### Refilling -/

/-- **A refilled state has the core of the state the snapshot was taken from,
without the leases.** -/
theorem core_refill (cfg : Config) (t : BrokerState) (hs : Indexed s) (hb : s.snapshot now = some b) :
    (t.refill cfg b).core = (s.probes, s.serviceVersions, s.sourceMapSets, ∅) := by
  have h := snapshotSchema_eq_some.mp hb
  have kept : ∀ {α} {P : JsString → α → Prop} {sch : Schema α} {m : JsMap JsString α},
      m.All P → (∀ k v, P k v → Kept sch v) → Kept (array sch) m.values := by
    intro α P sch m hm hP
    refine Kept.array fun v hv => ?_
    obtain ⟨k, hk⟩ := JsMap.mem_values_iff.mp hv
    exact hP k v (hm k v (JsMap.get?_eq_some_iff.mpr hk))
  have hp : b.probes = s.probes.values :=
    kept hs.probes (fun _ _ => ProbeIndexed.kept) h.probes
  have hv : b.serviceVersions = s.serviceVersions.values :=
    kept hs.serviceVersions (fun _ _ => VersionIndexed.kept) h.serviceVersions
  have hm : b.sourceMapSets = s.sourceMapSets.values.map sourceMapSetEntry := by
    refine Kept.array (fun e he => ?_) h.sourceMapSets
    obtain ⟨m, hmem, rfl⟩ := List.mem_map.mp he
    obtain ⟨k, hk⟩ := JsMap.mem_values_iff.mp hmem
    exact (hs.sourceMapSets k m (JsMap.get?_eq_some_iff.mpr hk)).kept
  simp only [core, refill, hp, hv, hm, List.map_map, Prod.mk.injEq]
  refine ⟨?_, ?_, ?_, trivial⟩
  · exact JsMap.ofEntries_values (f := fun p => p) (fun k p hk => (hs.probes k p hk).1)
      fun _ _ _ => rfl
  · exact JsMap.ofEntries_values (f := fun v => v) (fun k v hk => (hs.serviceVersions k v hk).1)
      fun _ _ _ => rfl
  · exact JsMap.ofEntries_values (f := fun m => sourceMapSetOf (sourceMapSetEntry m))
      (fun k m hk => (hs.sourceMapSets k m hk).key)
      fun k m hk => (hs.sourceMapSets k m hk).sourceMapSetOf_entry

/-- A state refilled from a parsed snapshot is indexed, whatever it was before. -/
theorem Indexed.refill (h : SnapshotParts a b) : Indexed (t.refill cfg b) where
  probes := JsMap.All.ofEntries fun e he => by
    obtain ⟨p, hp, rfl⟩ := List.mem_map.mp he
    obtain ⟨p₀, -, h₀⟩ := exists_of_mem_array h.probes hp
    simp only [storedProbeSchema, Option.bind_eq_bind, Option.bind_eq_some_iff,
      Option.pure_def, Option.some.injEq] at h₀
    obtain ⟨_, _, q, hq, _, _, rfl⟩ := h₀
    exact ⟨rfl, stable_probeDefinitionSchema hq⟩
  serviceVersions := JsMap.All.ofEntries fun e he => by
    obtain ⟨v, hv, rfl⟩ := List.mem_map.mp he
    obtain ⟨v₀, -, h₀⟩ := exists_of_mem_array h.serviceVersions hv
    simp only [serviceVersionSchema, Option.bind_eq_bind, Option.bind_eq_some_iff,
      Option.pure_def, Option.some.injEq] at h₀
    obtain ⟨_, _, _, hq, _, _, rfl⟩ := h₀
    exact ⟨rfl, stable_serviceIdSchema hq⟩
  sourceMapSets := JsMap.All.ofEntries fun e he => by
    obtain ⟨m, hm, rfl⟩ := List.mem_map.mp he
    obtain ⟨m₀, -, h₀⟩ := exists_of_mem_array h.sourceMapSets hm
    simp only [sourceMapSetSchema, Option.bind_eq_bind, Option.bind_eq_some_iff,
      Option.pure_def, Option.some.injEq] at h₀
    obtain ⟨_, _, _, h₂, _, h₃, _, _, l, h₅, rfl⟩ := h₀
    refine ⟨rfl, stable_serviceIdSchema h₂, stable_sourceCommitSchema h₃, ?_⟩
    refine JsMap.All.ofEntries fun e he => ?_
    obtain ⟨f, hf, rfl⟩ := List.mem_map.mp he
    obtain ⟨f₀, -, h₀⟩ := exists_of_mem_array h₅ hf
    simp only [storedSourceMapSchema, Option.bind_eq_bind, Option.bind_eq_some_iff,
      Option.pure_def, Option.some.injEq] at h₀
    obtain ⟨_, h₆, _, _, rfl⟩ := h₀
    exact ⟨rfl, stable_trimmedWith _ _ _ h₆⟩
  leases := .empty

theorem Indexed.loadSnapshot (ht : Indexed t) (a : BrokerSnapshot) :
    Indexed (t.loadSnapshot cfg now a).1 := by
  unfold BrokerState.loadSnapshot
  split
  · exact ht
  · next h => exact (Indexed.refill (snapshotSchema_eq_some.mp h)).expireDueProbes

/-- A snapshot that was taken can be loaded. -/
theorem loadSnapshot_of_snapshot {n : ℕ} (hb : s.snapshot n = some b) :
    t.loadSnapshot cfg now b = (t.replaceWithSnapshot cfg now b, .ok ()) := by
  simp only [BrokerState.loadSnapshot, stable_snapshotSchema hb]

/-! ### The other maps -/

/-- An event as the broker's schema puts it out, or as it is. -/
def readEvent (e : ProbeEvent) : ProbeEvent := (probeEventSchema e).getD e

theorem readEvent_eq_self {e : ProbeEvent} : readEvent e = e ↔ Kept probeEventSchema e := by
  unfold readEvent Kept
  rcases probeEventSchema e with - | e'
  · simp
  · simp [eq_comm]

variable {L : Limits}

theorem StatusOk.kept {status : ProbeStatus} (h : StatusOk L status) :
    Kept persistedStatusSchema status := fun q hq => by
  simp only [persistedStatusSchema, Option.bind_eq_bind, Option.bind_eq_some_iff, Option.pure_def,
    Option.some.injEq] at hq
  obtain ⟨_, h₁, _, h₂, _, h₃, _, h₄, _, h₅, rfl⟩ := hq
  rw [Kept.of_self h.metadata h₁, kept_refine _ _ h₂, Kept.of_self h.detail h₃,
    Kept.optional (fun _ _ => kept_refine _ _) h₄, Kept.of_self h.probeVersion h₅]

/-- A service record is put out with its capabilities filled in. -/
theorem ServiceOk.read {k : JsString} {r q : ServiceRecord} (h : ServiceOk L k r)
    (hq : persistedServiceSchema r = some q) :
    q = { r with capabilities := some (r.capabilities.getD []) } := by
  simp only [persistedServiceSchema, Option.bind_eq_bind, Option.bind_eq_some_iff,
    Option.pure_def, Option.some.injEq] at hq
  obtain ⟨_, h₁, _, h₂, _, h₃, _, h₄, _, h₅, _, h₆, _, h₇, _, h₈, rfl⟩ := hq
  rw [kept_resourceScope _ h₁, Kept.of_self h.serviceId h₂, kept_refine _ _ h₃,
    Kept.of_self h.commitSha h₄, Kept.of_self h.capabilities h₅, Kept.of_self h.agentStatus h₆,
    Kept.optional (fun n _ => kept_nonnegativeInt n) h₇, Kept.of_self h.buildIds h₈]

theorem AgentOk.kept {k : JsString} {a : NativeAgentRecord} (h : AgentOk L k a) :
    Kept persistedNativeAgentSchema a := fun q hq => by
  simp only [persistedNativeAgentSchema, Option.bind_eq_bind, Option.bind_eq_some_iff,
    Option.pure_def, Option.some.injEq] at hq
  obtain ⟨_, h₁, _, h₂, _, h₃, rfl⟩ := hq
  rw [Kept.of_self h.registration h₁, kept_resourceScope _ h₂, kept_refine _ _ h₃]

theorem InstanceOk.parsed {k : JsString} {i : NativeInstanceRecord} (h : InstanceOk L k i) :
    persistedNativeInstanceSchema i = some i := by
  have hself : nativeInstanceSchemaWith (fun c => some (some (c.getD []))) i.toNativeInstance =
      some i.toNativeInstance :=
    nativeInstanceSchemaWith_self.mpr ⟨h.parts, by rw [← h.some_capabilities]⟩
  simp only [persistedNativeInstanceSchema, hself, h.scope, h.agentId, Option.bind_eq_bind,
    Option.bind_some, Option.pure_def]

section

variable (t : BrokerState) (h : Records cfg L s) (hb : s.snapshot now = some b)

include h hb

theorem events_read {k : JsString} {ring : List ProbeEvent} (hk : s.events.get? k = some ring)
    {e : ProbeEvent} (he : e ∈ ring) :
    probeEventSchema (readEvent e) = some (readEvent e) ∧ (readEvent e).probeId = e.probeId := by
  have hp := snapshotSchema_eq_some.mp hb
  have hhas := h.known k (Or.inl (by rw [JsMap.has, hk]; rfl))
  obtain ⟨stored, hstored⟩ := Option.isSome_iff_exists.mp hhas
  have hmem : (⟨stored.scope, k, ring⟩ : RingEntry) ∈ s.events.entries.filterMap s.ringEntry :=
    List.mem_filterMap.mpr ⟨(k, ring), JsMap.get?_eq_some_iff.mp hk, by simp [ringEntry, hstored]⟩
  obtain ⟨q, -, hq⟩ := exists_of_array hp.events hmem
  simp only [ringEntrySchema, Option.bind_eq_bind, Option.bind_eq_some_iff, Option.pure_def,
    Option.some.injEq] at hq
  obtain ⟨_, -, _, -, values, hvalues, -⟩ := hq
  obtain ⟨e', -, he'⟩ := exists_of_array hvalues he
  rw [readEvent, he', Option.getD_some]
  refine ⟨stable_probeEventSchema he', ?_⟩
  simp only [probeEventSchema, Option.bind_eq_bind, Option.bind_eq_some_iff, Option.pure_def,
    Option.some.injEq] at he'
  obtain ⟨_, h₁, _, -, _, -, _, -, rfl⟩ := he'
  exact kept_refine _ _ h₁

/-- The rings are restored as far as their schema keeps them. -/
theorem events_refill :
    (t.refill cfg b).events = s.events.mapVals fun _ ring => ring.map readEvent := by
  have hp := snapshotSchema_eq_some.mp hb
  have hread : b.events = (s.snapshotData now).events.map fun e =>
      { e with values := e.values.map readEvent } := by
    refine eq_map_of_array hp.events fun e he q hq => ?_
    simp only [ringEntrySchema, Option.bind_eq_bind, Option.bind_eq_some_iff, Option.pure_def,
      Option.some.injEq] at hq
    obtain ⟨_, h₁, _, h₂, values, h₃, rfl⟩ := hq
    rw [kept_resourceScope _ h₁, kept_refine _ _ h₂, eq_map_of_array h₃ (f := readEvent)]
    intro e _ e' he'
    rw [readEvent, he', Option.getD_some]
  have hentries : (s.snapshotData now).events.map (fun e => (e.probeId, e.values)) =
      s.events.entries := by
    simp only [snapshotData, List.map_filterMap]
    refine (List.filterMap_congr fun e he => ?_).trans List.filterMap_some
    have hhas := h.known e.1 (Or.inl (by
      rw [JsMap.has, JsMap.get?_eq_some_iff.mpr he]
      rfl))
    obtain ⟨stored, hstored⟩ := Option.isSome_iff_exists.mp hhas
    simp [ringEntry, hstored]
  have hlast : ∀ e ∈ s.events.entries,
      lastEvents cfg (e.2.map readEvent) = e.2.map readEvent := fun e he => by
    have := (h.events e.1 e.2 (JsMap.get?_eq_some_iff.mpr he)).length
    rw [lastEvents, List.length_map, Nat.sub_eq_zero_of_le this, List.drop_zero]
  rw [← JsMap.ofEntries_entries_map, refill, hread]
  simp only [List.map_map]
  rw [← hentries, List.map_map]
  congr 1
  refine List.map_congr_left fun e he => ?_
  have hmem : (e.probeId, e.values) ∈ s.events.entries := by
    rw [← hentries]
    exact List.mem_map_of_mem he
  exact Prod.ext rfl (hlast _ hmem)

/-- The service records are restored without their capabilities. -/
theorem services_refill :
    (t.refill cfg b).services = s.services.mapVals fun _ r => { r with capabilities := some [] } := by
  have hp := snapshotSchema_eq_some.mp hb
  have hread : b.services = s.services.values.map fun r =>
      { r with capabilities := some (r.capabilities.getD []) } := by
    refine eq_map_of_array hp.services fun r hr q hq => ?_
    obtain ⟨k, hk⟩ := JsMap.mem_values_iff.mp hr
    exact (h.services k r (JsMap.get?_eq_some_iff.mpr hk)).read hq
  rw [refill, hread]
  simp only [List.map_map]
  exact JsMap.ofEntries_values_map (fun r => { r with capabilities := some [] })
    fun k r hk => (h.services k r hk).key

theorem statuses_refill : (t.refill cfg b).statuses = s.statuses := by
  have hp := snapshotSchema_eq_some.mp hb
  have hread : b.statuses = (s.snapshotData now).statuses := by
    refine Kept.array (fun e he q hq => ?_) hp.statuses
    obtain ⟨a, ha, hea⟩ := List.mem_filterMap.mp he
    obtain ⟨stored, -, rfl⟩ := Option.map_eq_some_iff.mp hea
    simp only [statusEntrySchema, Option.bind_eq_bind, Option.bind_eq_some_iff, Option.pure_def,
      Option.some.injEq] at hq
    obtain ⟨_, h₁, _, h₂, _, h₃, rfl⟩ := hq
    rw [kept_resourceScope _ h₁, kept_refine _ _ h₂,
      (h.statuses _ _ (JsMap.get?_eq_some_iff.mpr ha)).kept h₃]
  have hentries : (s.snapshotData now).statuses.map (fun e => (e.probeId, e.value)) =
      s.statuses.entries := by
    simp only [snapshotData, List.map_filterMap]
    refine (List.filterMap_congr fun e he => ?_).trans List.filterMap_some
    have hhas := h.known e.1 (Or.inr (by
      rw [JsMap.has, JsMap.get?_eq_some_iff.mpr he]
      rfl))
    obtain ⟨stored, hstored⟩ := Option.isSome_iff_exists.mp hhas
    simp [statusEntry, hstored]
  apply JsMap.ext
  rw [refill, hread, hentries, JsMap.entries_ofEntries s.statuses.nodup]

theorem nativeAgents_refill : (t.refill cfg b).nativeAgents = s.nativeAgents := by
  have hp := snapshotSchema_eq_some.mp hb
  have hread : b.nativeAgents = s.nativeAgents.values := by
    refine Kept.array (fun a ha => ?_) hp.nativeAgents
    obtain ⟨k, hk⟩ := JsMap.mem_values_iff.mp ha
    exact (h.nativeAgents k a (JsMap.get?_eq_some_iff.mpr hk)).kept
  rw [refill, hread]
  exact JsMap.ofEntries_values (f := fun a => a) (fun k a hk => (h.nativeAgents k a hk).key)
    fun _ _ _ => rfl

theorem nativeInstances_refill : (t.refill cfg b).nativeInstances = s.nativeInstances := by
  have hp := snapshotSchema_eq_some.mp hb
  have hread : b.nativeInstances = s.nativeInstances.values := by
    refine Kept.array (fun i hi => ?_) hp.nativeInstances
    obtain ⟨k, hk⟩ := JsMap.mem_values_iff.mp hi
    exact .of_self (h.nativeInstances k i (JsMap.get?_eq_some_iff.mpr hk)).parsed
  rw [refill, hread]
  exact JsMap.ofEntries_values (f := fun i => i) (fun k i hk => (h.nativeInstances k i hk).key)
    fun _ _ _ => rfl

end

/-! ### Native keys -/

/-- A key of native statuses is plain when its parts are valid and hold no NUL
and the probe it names, if there is one, is of its scope. -/
def PlainKey (s : BrokerState) (k : JsString) : Prop :=
  ∃ scope probeId version agentId instanceId buildId,
    k = nativeStatusKey scope probeId version agentId instanceId buildId ∧
      NativeKeyOk .plain probeId version agentId instanceId buildId ∧
      ∀ stored ∈ s.probes.get? probeId, stored.scope = scope

/-- The keys of the native maps can be split into what they were made of. -/
structure PlainNativeKeys (s : BrokerState) : Prop where
  agents : s.nativeAgents.All fun _ a => nul ∉ a.agentId
  statuses : s.nativeStatuses.All fun k _ => s.PlainKey k

/-- Whether the probe a key of native statuses names exists. -/
def namesProbe (s : BrokerState) (k : JsString) : Bool := ((splitNul k)[1]?).any s.probes.has

theorem nul_notMem_probeId {id : JsString} (h : probeIdSchema id = some id) : nul ∉ id := by
  have hp : isProbeId id = true := refine_self.mp h
  simp only [isProbeId, Bool.and_eq_true, decide_eq_true_eq] at hp
  rw [← List.take_append_drop 4 id, List.mem_append, hp.1.1]
  rintro (hm | hm)
  · exact absurd hm (by decide)
  · exact absurd (List.all_eq_true.mp hp.2 _ hm) (by decide)

theorem nul_notMem_buildId {id : JsString} (h : buildIdSchema id = some id) : nul ∉ id :=
  fun hm => absurd (all_isHexUnit_of_lowerHex h _ hm) (by decide)

theorem splitNul_of_plain {L : Limits} {scope : ResourceScope} {probeId : JsString} {version : ℕ}
    {agentId instanceId buildId : JsString} (hL : L.plainIds)
    (h : NativeKeyOk L probeId version agentId instanceId buildId) :
    splitNul (nativeStatusKey scope probeId version agentId instanceId buildId) =
      [resourceScopeKey scope, probeId, decimal version, agentId, instanceId, buildId] :=
  splitNul_nativeStatusKey version (nul_notMem_probeId h.probe) (h.plain hL).1 (h.plain hL).2
    (nul_notMem_buildId h.build)

/-- An agent is found by its key among the values. -/
theorem find?_agent (h : Records cfg L s) (k : JsString) :
    (s.nativeAgents.values.find? fun a => nativeAgentKey a.scope a.agentId = k) =
      s.nativeAgents.get? k := by
  rcases hf : s.nativeAgents.values.find? fun a => nativeAgentKey a.scope a.agentId = k with - | a
  · refine Eq.trans hf (JsMap.get?_eq_none_iff.mpr fun hk => ?_).symm
    obtain ⟨a, ha⟩ := JsMap.mem_keys_iff.mp hk
    have hne := List.find?_eq_none.mp hf a (JsMap.mem_values_iff.mpr ⟨k, ha⟩)
    exact hne (by simp [← (h.nativeAgents _ _ (JsMap.get?_eq_some_iff.mpr ha)).key])
  · have hk := List.find?_some hf
    obtain ⟨k', hk'⟩ := JsMap.mem_values_iff.mp (List.mem_of_find?_eq_some hf)
    have hg := JsMap.get?_eq_some_iff.mpr hk'
    rw [decide_eq_true_eq] at hk
    refine hf.trans ?_
    rw [← hk, ← (h.nativeAgents _ _ hg).key, hg]

/-- A key that can be split is written with its parts. -/
theorem nativeStatusEntry_plain {scope : ResourceScope} {probeId : JsString} {version : ℕ}
    {agentId instanceId buildId : JsString}
    (hok : NativeKeyOk .plain probeId version agentId instanceId buildId) (status : ProbeStatus) :
    s.nativeStatusEntry (nativeStatusKey scope probeId version agentId instanceId buildId, status) =
      (s.probes.get? probeId).map fun stored =>
        ⟨stored.scope, probeId, some version, agentId, instanceId, buildId, status⟩ := by
  simp only [nativeStatusEntry, splitNul_of_plain trivial hok]
  rcases hg : s.probes.get? probeId with - | stored <;> simp [hg]

/-- The version of an agent is written with its identifier when it is registered. -/
theorem assignmentVersionEntry_plain (h : Records cfg L s) (hp : PlainNativeKeys s)
    (e : JsString × ℕ) :
    (s.nativeAgents.get? e.1 = none ∧ s.assignmentVersionEntry e = none) ∨
      ∃ a, s.nativeAgents.get? e.1 = some a ∧ e.1 = nativeAgentKey a.scope a.agentId ∧
        agentIdSchema a.agentId = some a.agentId ∧
        s.assignmentVersionEntry e = some ⟨a.scope, a.agentId, e.2⟩ := by
  rcases hg : s.nativeAgents.get? e.1 with - | a
  · left
    simp [assignmentVersionEntry, find?_agent h, hg]
  · right
    have ha := h.nativeAgents _ _ hg
    have hreg := ha.registration
    obtain ⟨⟨agentId, _, _, _⟩, scope, _⟩ := a
    simp only [nativeAgentRegistrationSchema, Option.bind_eq_bind, Option.bind_eq_some_iff,
      Option.pure_def, Option.some.injEq, NativeAgentRegistration.mk.injEq] at hreg
    obtain ⟨_, hid, _, -, _, -, _, -, rfl, -⟩ := hreg
    refine ⟨_, rfl, ha.key, hid, ?_⟩
    have hplain : nul ∉ _ := hp.agents _ _ hg
    simp only [assignmentVersionEntry, find?_agent h, hg]
    rw [ha.key, splitNul_nativeAgentKey hplain]
    rfl

section

variable (t : BrokerState) (h : Records cfg L s) (hp : PlainNativeKeys s)
  (hb : s.snapshot now = some b)

include h hp hb

/-- The native statuses of existing probes are restored. -/
theorem nativeStatuses_refill :
    (t.refill cfg b).nativeStatuses = s.nativeStatuses.filter fun k _ => s.namesProbe k := by
  have entry : ∀ e ∈ s.nativeStatuses.entries, ∃ scope probeId version agentId instanceId buildId,
      e.1 = nativeStatusKey scope probeId version agentId instanceId buildId ∧
        NativeKeyOk .plain probeId version agentId instanceId buildId ∧
        s.namesProbe e.1 = s.probes.has probeId ∧
        s.nativeStatusEntry e = if s.probes.has probeId then
          some ⟨scope, probeId, some version, agentId, instanceId, buildId, e.2⟩ else none := by
    intro e he
    obtain ⟨scope, probeId, version, agentId, instanceId, buildId, hk, hok, hscope⟩ :=
      hp.statuses _ _ (JsMap.get?_eq_some_iff.mpr he)
    refine ⟨scope, probeId, version, agentId, instanceId, buildId, hk, hok, ?_, ?_⟩
    · simp [namesProbe, hk, splitNul_of_plain trivial hok]
    · have he : e = (nativeStatusKey scope probeId version agentId instanceId buildId, e.2) :=
        Prod.ext hk rfl
      rw [he, nativeStatusEntry_plain hok]
      rcases hg : s.probes.get? probeId with - | stored
      · simp [JsMap.has, hg]
      · simp [JsMap.has, hg, hscope stored hg]
  have hread : b.nativeStatuses = (s.snapshotData now).nativeStatuses := by
    refine Kept.array (fun e₀ he₀ q hq => ?_) (snapshotSchema_eq_some.mp hb).nativeStatuses
    obtain ⟨e, he, hee⟩ := List.mem_filterMap.mp he₀
    obtain ⟨scope, probeId, version, agentId, instanceId, buildId, -, hok, -, heq⟩ := entry e he
    rw [heq] at hee
    split at hee
    · obtain rfl := Option.some.inj hee
      simp only [nativeStatusEntrySchema, Option.bind_eq_bind, Option.bind_eq_some_iff,
        Option.pure_def, Option.some.injEq] at hq
      obtain ⟨_, h₁, _, h₂, _, rfl, _, h₃, _, h₄, _, h₅, _, h₆, _, h₇, rfl⟩ := hq
      rw [kept_resourceScope _ h₁, kept_refine _ _ h₂, kept_positiveInt _ h₃,
        Kept.of_self hok.agent h₄, Kept.of_self hok.inst h₅, Kept.of_self hok.build h₆,
        (h.nativeStatuses _ _ (JsMap.get?_eq_some_iff.mpr he)).status.kept h₇]
    · cases hee
  rw [← JsMap.ofEntries_filter, refill, hread]
  refine congrArg JsMap.ofEntries ?_
  simp only [snapshotData, List.map_filterMap]
  rw [← List.filterMap_eq_filter]
  refine List.filterMap_congr fun e he => ?_
  obtain ⟨scope, probeId, version, agentId, instanceId, buildId, hk, -, hn, heq⟩ := entry e he
  rw [heq, Option.guard, hn]
  split
  · simp [← hk]
  · rfl

/-- The assignment versions of registered agents are restored. -/
theorem assignmentVersions_refill :
    (t.refill cfg b).nativeAssignmentVersions =
      s.nativeAssignmentVersions.filter fun k _ => s.nativeAgents.has k := by
  have entry := assignmentVersionEntry_plain h hp
  have hread : b.nativeAssignmentVersions = (s.snapshotData now).nativeAssignmentVersions := by
    refine Kept.array (fun e₀ he₀ q hq => ?_)
      (snapshotSchema_eq_some.mp hb).nativeAssignmentVersions
    obtain ⟨e, he, hee⟩ := List.mem_filterMap.mp he₀
    rcases entry e with ⟨-, hn⟩ | ⟨a, -, -, hid, hs⟩
    · rw [hn] at hee
      cases hee
    · rw [hs] at hee
      obtain rfl := Option.some.inj hee
      simp only [assignmentVersionSchema, Option.bind_eq_bind, Option.bind_eq_some_iff,
        Option.pure_def, Option.some.injEq] at hq
      obtain ⟨_, h₁, _, h₂, _, h₃, rfl⟩ := hq
      rw [kept_resourceScope _ h₁, Kept.of_self hid h₂, kept_nonnegativeInt _ h₃]
  rw [← JsMap.ofEntries_filter, refill, hread]
  refine congrArg JsMap.ofEntries ?_
  simp only [snapshotData, List.map_filterMap]
  rw [← List.filterMap_eq_filter]
  refine List.filterMap_congr fun e _ => ?_
  rcases entry e with ⟨hg, hn⟩ | ⟨a, hg, hk, -, hs⟩
  · simp [hn, Option.guard, JsMap.has, hg]
  · simp [hs, Option.guard, JsMap.has, hg, ← hk]

end

/-! ### The records after a restore -/

/-- An entry of the native statuses of a snapshot comes from the parts of a key. -/
theorem nul_notMem_nativeStatusEntry {e : JsString × ProbeStatus} {q : NativeStatusEntry}
    (hq : s.nativeStatusEntry e = some q) : nul ∉ q.agentId ∧ nul ∉ q.instanceId := by
  simp only [nativeStatusEntry, Option.bind_eq_bind, Option.bind_eq_some_iff, Option.pure_def,
    Option.some.injEq] at hq
  obtain ⟨_, -, agentId, ha, instanceId, hi, _, -, _, -, rfl⟩ := hq
  exact ⟨nul_notMem_of_mem_splitNul (List.mem_of_getElem? ha),
    nul_notMem_of_mem_splitNul (List.mem_of_getElem? hi)⟩

theorem nul_notMem_trim {a : JsString} (h : nul ∉ a) : nul ∉ trim a := fun hm =>
  h ((isInfix_trim a).subset hm)

/-- **A restored state holds records like those it was saved from.** -/
theorem Records.refill (t : BrokerState) (hi : Indexed s) (h : Records cfg L s)
    (hb : s.snapshot now = some b) : Records cfg L (t.refill cfg b) := by
  have hp := snapshotSchema_eq_some.mp hb
  have hcore := core_refill cfg t hi hb
  simp only [core, Prod.mk.injEq] at hcore
  obtain ⟨hprobes, hversions, hsets, hleases⟩ := hcore
  have hevents := events_refill t h hb
  have hservices := services_refill t h hb
  have hagents := nativeAgents_refill t h hb
  have hinstances := nativeInstances_refill t h hb
  refine
    { probes := hprobes ▸ h.probes
      serviceVersions := hversions ▸ h.serviceVersions
      known := ?_, events := ?_
      statuses := statuses_refill t h hb ▸ h.statuses
      services := ?_
      reports := .empty
      sourceMapSets := hsets ▸ h.sourceMapSets
      leases := .empty
      nativeAgents := hagents ▸ h.nativeAgents
      nativeInstances := hinstances ▸ h.nativeInstances
      registered := ?_, nativeStatuses := ?_, assignmentVersions := ?_ }
  · intro k hk
    rw [hevents, statuses_refill t h hb, JsMap.has, JsMap.get?_mapVals, Option.isSome_map] at hk
    rw [hprobes]
    exact h.known k hk
  · intro k ring hk
    rw [hevents, JsMap.get?_mapVals] at hk
    obtain ⟨old, hold, rfl⟩ := Option.map_eq_some_iff.mp hk
    have hring := h.events k old hold
    refine ⟨by simpa using hring.length, fun e he => ?_, fun e he => ?_⟩
    · obtain ⟨e₀, he₀, rfl⟩ := List.mem_map.mp he
      rw [(events_read h hb hold he₀).2, hring.own e₀ he₀]
    · obtain ⟨e₀, he₀, rfl⟩ := List.mem_map.mp he
      exact .managed (events_read h hb hold he₀).1
  · intro k r hk
    rw [hservices, JsMap.get?_mapVals] at hk
    obtain ⟨old, hold, rfl⟩ := Option.map_eq_some_iff.mp hk
    exact { h.services k old hold with capabilities := capabilitiesOk_nil }
  · intro k i hk
    rw [hinstances] at hk
    rw [hagents]
    exact h.registered k i hk
  · refine JsMap.All.ofEntries fun e he => ?_
    obtain ⟨q, hq, rfl⟩ := List.mem_map.mp he
    obtain ⟨q₀, hq₀, hread⟩ := exists_of_mem_array hp.nativeStatuses hq
    obtain ⟨a, ha, haq⟩ := List.mem_filterMap.mp hq₀
    have hplain := nul_notMem_nativeStatusEntry haq
    have hvalue : q₀.value = a.2 := by
      simp only [nativeStatusEntry, Option.bind_eq_bind, Option.bind_eq_some_iff, Option.pure_def,
        Option.some.injEq] at haq
      obtain ⟨_, -, _, -, _, -, _, -, _, -, rfl⟩ := haq
      rfl
    have hst := (h.nativeStatuses _ _ (JsMap.get?_eq_some_iff.mpr ha)).status
    rw [← hvalue] at hst
    simp only [nativeStatusEntrySchema, Option.bind_eq_bind, Option.bind_eq_some_iff,
      Option.pure_def, Option.some.injEq] at hread
    obtain ⟨_, -, _, h₂, _, -, v, h₃, _, h₄, _, h₅, _, h₆, _, h₇, rfl⟩ := hread
    have hagent := trim_eq_of_trimmed h₄
    have hinst := trim_eq_of_trimmed h₅
    exact ⟨hst.kept h₇ ▸ hst, _, _, v, _, _, _, rfl, stable_probeIdSchema h₂,
      stable_positiveInt h₃, stable_agentIdSchema h₄, stable_instanceIdSchema h₅,
      stable_buildIdSchema h₆, fun _ => ⟨hagent ▸ nul_notMem_trim hplain.1,
        hinst ▸ nul_notMem_trim hplain.2⟩⟩
  · intro hpl k hk
    rw [hagents]
    obtain ⟨v, hv⟩ := JsMap.mem_keys_iff.mp (JsMap.has_eq_true_iff.mp hk)
    obtain ⟨q, hq, he⟩ := List.mem_map.mp (JsMap.mem_of_mem_ofEntries hv)
    obtain rfl : nativeAgentKey q.scope q.agentId = k := congrArg Prod.fst he
    obtain ⟨q₀, hq₀, hread⟩ := exists_of_mem_array hp.nativeAssignmentVersions hq
    obtain ⟨a, -, haq⟩ := List.mem_filterMap.mp hq₀
    simp only [assignmentVersionEntry, find?_agent h, Option.bind_eq_bind,
      Option.bind_eq_some_iff, Option.pure_def, Option.some.injEq] at haq
    obtain ⟨agentId, hid, agent, hg, rfl⟩ := haq
    have hagent := h.nativeAgents _ _ hg
    have hsame : agentId = agent.agentId := by
      rw [hagent.key, splitNul_nativeAgentKey (hagent.plain hpl)] at hid
      exact (Option.some.inj hid).symm
    simp only [assignmentVersionSchema, Option.bind_eq_bind, Option.bind_eq_some_iff,
      Option.pure_def, Option.some.injEq] at hread
    obtain ⟨_, h₁, _, h₂, _, -, rfl⟩ := hread
    have hreg := hagent.registration
    have hidself : agentIdSchema agent.agentId = some agent.agentId := by
      obtain ⟨⟨_, _, _, _⟩, _, _⟩ := agent
      simp only [nativeAgentRegistrationSchema, Option.bind_eq_bind, Option.bind_eq_some_iff,
        Option.pure_def, Option.some.injEq, NativeAgentRegistration.mk.injEq] at hreg
      obtain ⟨_, hid, _, -, _, -, _, -, rfl, -⟩ := hreg
      exact hid
    subst hsame
    simp only [kept_resourceScope _ h₁, Kept.of_self hidself h₂]
    rw [← hagent.key, JsMap.has, hg]
    rfl

/-- Loading a snapshot a state was saved as keeps the records. -/
theorem Records.loadSnapshot {n : ℕ} (t : BrokerState) (hi : Indexed s) (h : Records cfg L s)
    (hb : s.snapshot n = some b) (hc : L.clock now) : Records cfg L (t.loadSnapshot cfg now b).1 := by
  rw [loadSnapshot_of_snapshot hb]
  exact (h.refill t hi hb).expireDueProbes (Indexed.refill (snapshotSchema_eq_some.mp hb)) hc

end BrokerState
