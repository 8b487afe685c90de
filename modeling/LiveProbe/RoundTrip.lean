/-
LiveProbe/RoundTrip.lean

A snapshot of a reachable state is accepted and gives the state back.

The schema of a snapshot asks for more than the schemas of the requests
promise: years of four digits, safe integers, parts of native keys without NUL,
build identifiers in lower case, and native statuses whose probe is of the scope
of their key.  `Limits.written` and `FreshDraws` hold the steps of a run to
this; `SafeCounters` holds the counters of the state to it.
-/
import LiveProbe.Forget

open JsString Schema Broker Protocol BrokerState

/-- What the schema of a snapshot asks of the inputs of a run. -/
def Limits.written : Limits where
  clock now := now < IsoDate.year10000
  scope scope := resourceScopeSchema scope = some scope
  expiry expiresAt := expiresAt ≤ maxSafeInteger
  event e := probeEventSchema e = some e
  plainIds := True

namespace BrokerState

variable {cfg : Config} {now : ℕ} {scope : ResourceScope} {r : Request} {s t : BrokerState}

/-! ### The scope of native keys -/

/-- The probe a key of native statuses names, if there is one, is of the scope
of the key. -/
def OwnKey (s : BrokerState) (k : JsString) : Prop :=
  ∀ scope probeId rest, k = resourceScopeKey scope ++ nul :: (probeId ++ nul :: rest) →
    nul ∉ probeId → ∀ stored ∈ s.probes.get? probeId, stored.scope = scope

def OwnKeys (s : BrokerState) : Prop := s.nativeStatuses.All fun k _ => s.OwnKey k

/-- No identifier the generator may give is named by a native status of another
scope. -/
def FreshDraws (s : BrokerState) (scope : ResourceScope) (draws : ℕ → JsString) : Prop :=
  ∀ n < 11, ∀ sc rest,
    s.nativeStatuses.has (resourceScopeKey sc ++ nul :: (draws n ++ nul :: rest)) = true → sc = scope

/-- A change that keeps the native statuses and the scopes of the probes. -/
theorem OwnKeys.congr (h : OwnKeys s) (hn : t.nativeStatuses = s.nativeStatuses)
    (hp : ∀ id, ∀ p ∈ t.probes.get? id, ∃ q ∈ s.probes.get? id, q.scope = p.scope) : OwnKeys t := by
  intro k status hk scope probeId rest hkey hnul stored hstored
  rw [hn] at hk
  obtain ⟨q, hq, hscope⟩ := hp probeId stored hstored
  exact hscope ▸ h k status hk scope probeId rest hkey hnul q hq

theorem OwnKeys.of_probes (h : OwnKeys s) (hn : t.nativeStatuses = s.nativeStatuses)
    (hp : t.probes = s.probes) : OwnKeys t :=
  h.congr hn fun _ p hpm => ⟨p, hp ▸ hpm, rfl⟩

theorem OwnKeys.expireDueProbes (h : OwnKeys s) : OwnKeys (s.expireDueProbes cfg now) := by
  have hn : (s.expireDueProbes cfg now).nativeStatuses = s.nativeStatuses :=
    expireDueProbes_induction (P := fun t => t.nativeStatuses = s.nativeStatuses) rfl
      fun t e ht _ hdue => by
        rw [expireProbe, if_pos hdue]
        exact ht
  refine h.congr hn fun id p hp => ?_
  rw [probes_expireDueProbes, JsMap.get?_mapVals] at hp
  obtain ⟨q, hq, rfl⟩ := Option.map_eq_some_iff.mp hp
  refine ⟨q, hq, ?_⟩
  unfold StoredProbe.expire
  split <;> rfl

/-- A new probe takes an identifier that is free for its scope. -/
theorem OwnKeys.insertProbe (h : OwnKeys s) {probe : ProbeDefinition}
    (hfree : ∀ sc rest, s.nativeStatuses.has
      (resourceScopeKey sc ++ nul :: (probe.id ++ nul :: rest)) = true → sc = scope) :
    OwnKeys (s.insertProbe now scope probe) := by
  intro k status hk sc probeId rest hkey hnul stored hstored
  have hk : s.nativeStatuses.get? k = some status := hk
  have hstored : (s.probes.set probe.id _).get? probeId = some stored := hstored
  rw [JsMap.get?_set] at hstored
  split at hstored
  · next hid =>
    obtain rfl := Option.some.inj hstored
    refine (hfree sc rest ?_).symm
    rw [← hid, ← hkey, JsMap.has, hk]
    rfl
  · exact h k status hk sc probeId rest hkey hnul stored hstored

theorem OwnKeys.setStatus (h : OwnKeys s) (hi : Indexed s) {stored : StoredProbe} {id : JsString}
    (found : s.probes.get? id = some stored) (own : stored.scope = scope) (rest : JsString)
    (status : ProbeStatus) (hp : t.probes = s.probes)
    (hn : t.nativeStatuses =
      s.nativeStatuses.set (resourceScopeKey scope ++ nul :: (id ++ nul :: rest)) status) :
    OwnKeys t := by
  intro k status' hk sc probeId rest' hkey hnul p hpm
  rw [hp] at hpm
  rw [hn, JsMap.get?_set] at hk
  split at hk
  · next hk' =>
    obtain ⟨rfl, hparts⟩ := scopeKey_append_inj (hkey.symm.trans hk')
    obtain ⟨rfl, -⟩ := append_nul_inj hnul (nul_notMem_probeId (hi.probeId found)) hparts
    obtain rfl : stored = p := Option.some.inj (found.symm.trans hpm)
    exact own
  · exact h k status' hk sc probeId rest' hkey hnul p hpm

/-- **A change keeps every native status in the scope of its probe**, as long as
new probes take free identifiers. -/
theorem OwnKeys.change (h : OwnKeys s) (hi : Indexed s)
    (hf : ∀ draws input, r = .createProbe draws input → s.FreshDraws scope draws)
    (hc : Change cfg now scope r s t) : OwnKeys t := by
  rcases nativeStatuses_change hc with hn | ⟨_, _, _, status, -, -, found, checked, -, -, hp, hn⟩
  · rcases probes_change hc with hp | rfl | ⟨draws, input, compiled, id, probe, hr, -, drawn, parsed,
      rfl⟩ | ⟨id, stored, -, -, -, hp⟩
    · exact h.of_probes hn hp
    · exact h.expireDueProbes
    · obtain ⟨hid, -⟩ := newDefinition_parsed parsed
      refine OwnKeys.insertProbe (h.of_probes rfl rfl) fun sc rest hk => ?_
      obtain ⟨n, hn, hdraw⟩ := List.mem_map.mp (List.mem_of_find?_eq_some drawn)
      exact hf draws input hr n (List.mem_range.mp hn) sc rest (by rw [hdraw, ← hid]; exact hk)
    · refine h.congr hn fun id' p hpm => ?_
      rw [hp, JsMap.get?_delete] at hpm
      split at hpm
      · cases hpm
      · exact ⟨p, hpm, rfl⟩
  · exact h.setStatus hi found (checkNativeEvent_eq_ok checked).1 _ status hp hn

/-- A request keeps every native status in the scope of its probe. -/
theorem OwnKeys.handle (h : OwnKeys s) (hi : Indexed s) (hv : r.Valid)
    (hf : ∀ draws input, r = .createProbe draws input → s.FreshDraws scope draws) :
    OwnKeys (s.handle cfg now scope r).1 := by
  have hc := handle_changes cfg now scope r s
  generalize (s.handle cfg now scope r).1 = t at hc ⊢
  suffices Indexed t ∧ OwnKeys t ∧
      ∀ draws input, r = .createProbe draws input → t.FreshDraws scope draws from this.2.1
  induction hc with
  | refl => exact ⟨hi, h, hf⟩
  | tail _ hc ih =>
    obtain ⟨hi, h, hf⟩ := ih
    refine ⟨hi.change hv hc, h.change hi hf hc, fun draws input hr => ?_⟩
    -- only a native batch records statuses
    rcases nativeStatuses_change hc with hn | ⟨_, _, _, _, hr', -⟩
    · unfold FreshDraws
      rw [hn]
      exact hf draws input hr
    · rw [hr] at hr'
      cases hr'

/-! ### The native keys of a run -/

theorem plainNativeKeys_of_records {L : Limits} (h : Records cfg L s) (hL : L.plainIds)
    (ho : OwnKeys s) : PlainNativeKeys s where
  agents := fun k a hk => (h.nativeAgents k a hk).plain hL
  statuses := fun k status hk => by
    obtain ⟨sc, probeId, version, agentId, instanceId, buildId, hkey, hok⟩ :=
      (h.nativeStatuses k status hk).key
    refine ⟨sc, probeId, version, agentId, instanceId, buildId, hkey,
      { hok with plain := fun _ => hok.plain hL }, fun stored hstored => ?_⟩
    exact ho k status hk sc probeId _ hkey (nul_notMem_probeId hok.probe) stored hstored

/-- Refilling keeps the scopes of native keys that can be split. -/
theorem OwnKeys.refill {L : Limits} (t : BrokerState) {n : ℕ} {b : BrokerSnapshot} (ho : OwnKeys s)
    (hi : Indexed s) (h : Records cfg L s) (hL : L.plainIds) (hb : s.snapshot n = some b) :
    OwnKeys (t.refill cfg b) := by
  have hcore := core_refill cfg t hi hb
  simp only [core, Prod.mk.injEq] at hcore
  intro k status hk sc probeId rest hkey hnul stored hstored
  rw [nativeStatuses_refill t h (plainNativeKeys_of_records h hL ho) hb, JsMap.get?_filter] at hk
  rw [hcore.1] at hstored
  exact ho k status (Option.filter_eq_some_iff.mp hk).1 sc probeId rest hkey hnul stored hstored

/-! ### Every part of a snapshot is accepted -/

/-- The counters are integers that a schema takes. -/
structure SafeCounters (s : BrokerState) : Prop where
  serviceVersions : s.serviceVersions.All fun _ v => v.version ≤ maxSafeInteger
  assignmentVersions : s.nativeAssignmentVersions.All fun _ v => v ≤ maxSafeInteger
  instanceCounts : s.services.All fun _ r => ∀ n ∈ r.instanceCount, n ≤ maxSafeInteger

theorem Stamp.parsed {ts : JsString} (h : Limits.written.Stamp ts) :
    timestampSchema ts = some ts := by
  refine refine_self.mpr ?_
  rcases h with h | ⟨n, hn, rfl⟩
  · exact h
  · exact IsoDate.isDatetime_toISOString hn

theorem StatusOk.parsed {status : ProbeStatus} (h : StatusOk .written status) :
    persistedStatusSchema status = some status := by
  have harmed : Schema.optional timestampSchema status.armedAt = some status.armedAt :=
    optional_self.mpr fun ts hts => Stamp.parsed (h.armedAt ts hts)
  simp only [persistedStatusSchema, h.metadata, Stamp.parsed h.updatedAt, h.detail, harmed,
    h.probeVersion, Option.bind_eq_bind, Option.bind_some, Option.pure_def]

theorem expiredEvent_parsed {id : JsString} (hn : now < IsoDate.year10000)
    (hid : probeIdSchema id = some id) :
    probeEventSchema (expiredEvent now id) = some (expiredEvent now id) :=
  probeEventSchema_self.mpr ⟨hid, rfl, refine_self.mpr (IsoDate.isDatetime_toISOString hn), rfl⟩

theorem EventOk.parsed {e : ProbeEvent} (h : EventOk .written e)
    (hid : probeIdSchema e.probeId = some e.probeId) : probeEventSchema e = some e := by
  cases h with
  | managed parsed => exact parsed
  | native parsed limit => exact limit
  | expired n read eq =>
    rw [eq]
    exact expiredEvent_parsed read hid

theorem ServiceOk.parsed {k : JsString} {r : ServiceRecord} (h : ServiceOk .written k r)
    (hn : ∀ n ∈ r.instanceCount, n ≤ maxSafeInteger) :
    persistedServiceSchema r = some { r with capabilities := some (r.capabilities.getD []) } := by
  have hscope : resourceScopeSchema r.scope = some r.scope := h.scope
  have hcount : Schema.optional nonnegativeInt r.instanceCount = some r.instanceCount :=
    optional_self.mpr fun n hmem => nonnegativeInt_eq_some.mpr ⟨hn n hmem, rfl⟩
  have hcaps : boundedArray agentCapabilitySchema 0 32 (r.capabilities.getD []) =
    some (r.capabilities.getD []) := h.capabilities
  simp only [persistedServiceSchema, hscope, h.serviceId, Stamp.parsed h.lastSeen, h.commitSha,
    hcaps, h.agentStatus, hcount, h.buildIds, Option.bind_eq_bind, Option.bind_some,
    Option.pure_def]

theorem AgentOk.parsed {k : JsString} {a : NativeAgentRecord} (h : AgentOk .written k a) :
    persistedNativeAgentSchema a = some a := by
  simp only [persistedNativeAgentSchema, h.registration, h.scope, Stamp.parsed h.lastSeen,
    Option.bind_eq_bind, Option.bind_some, Option.pure_def]

theorem sourceMapSet_parsed {k : JsString} {m : SourceMapSet} (hm : SetIndexed k m)
    (h : SetOk .written m) :
    sourceMapSetSchema (sourceMapSetEntry m) = some (sourceMapSetEntry m) := by
  have hscope : resourceScopeSchema m.scope = some m.scope := h.scope
  have hmaps : array storedSourceMapSchema m.maps.values = some m.maps.values := by
    refine array_self.mpr fun f hf => ?_
    obtain ⟨p, hp⟩ := JsMap.mem_values_iff.mp hf
    have hg := JsMap.get?_eq_some_iff.mpr hp
    simp only [storedSourceMapSchema, (hm.maps p f hg).2, Stamp.parsed (h.maps p f hg),
      Option.bind_eq_bind, Option.bind_some, Option.pure_def]
  simp only [sourceMapSetSchema, sourceMapSetEntry, hscope, hm.serviceId, hm.commitSha,
    Stamp.parsed h.updatedAt, hmaps, Option.bind_eq_bind, Option.bind_some, Option.pure_def]

/-- **The snapshot of a state with safe counters is accepted.** -/
theorem snapshot_accepted (hi : Indexed s) (h : Records cfg .written s) (ho : OwnKeys s)
    (hs : SafeCounters s) (hn : now < IsoDate.year10000) : ∃ b, s.snapshot now = some b := by
  have hp := plainNativeKeys_of_records h trivial ho
  have values : ∀ {α} {P : JsString → α → Prop} {sch : Schema α} {m : JsMap JsString α},
      m.All P → (∀ k v, m.get? k = some v → P k v → sch v = some v) →
      array sch m.values = some m.values := by
    intro α P sch m hm hP
    refine array_self.mpr fun v hv => ?_
    obtain ⟨k, hk⟩ := JsMap.mem_values_iff.mp hv
    have hg := JsMap.get?_eq_some_iff.mpr hk
    exact hP k v hg (hm k v hg)
  refine ⟨{ s.snapshotData now with
    services := s.services.values.map fun r =>
      { r with capabilities := some (r.capabilities.getD []) } }, ?_⟩
  refine snapshotSchema_eq_some.mpr
    { savedAt := refine_self.mpr (IsoDate.isDatetime_toISOString hn)
      probes := ?_, serviceVersions := ?_, events := ?_, services := ?_, statuses := ?_
      sourceMapSets := ?_, nativeAgents := ?_, nativeInstances := ?_, nativeStatuses := ?_
      nativeAssignmentVersions := ?_ }
  · refine values hi.probes fun k p hg hpi => ?_
    obtain ⟨hscope, hexpiry⟩ := h.probes k p hg
    have hscope : resourceScopeSchema p.scope = some p.scope := hscope
    have hexpiry : nonnegativeInt p.expiresAt = some p.expiresAt :=
      nonnegativeInt_eq_some.mpr ⟨hexpiry, rfl⟩
    simp only [storedProbeSchema, hscope, hpi.2, hexpiry, Option.bind_eq_bind, Option.bind_some,
      Option.pure_def]
  · refine values hi.serviceVersions fun k v hg hvi => ?_
    have hscope : resourceScopeSchema v.scope = some v.scope := h.serviceVersions k v hg
    have hversion : nonnegativeInt v.version = some v.version :=
      nonnegativeInt_eq_some.mpr ⟨hs.serviceVersions k v hg, rfl⟩
    simp only [serviceVersionSchema, hscope, hvi.2, hversion, Option.bind_eq_bind,
      Option.bind_some, Option.pure_def]
  · refine array_self.mpr fun e he => ?_
    obtain ⟨⟨k, ring⟩, hmem, heq⟩ := List.mem_filterMap.mp he
    obtain ⟨stored, hstored, rfl⟩ := Option.map_eq_some_iff.mp heq
    have hring := h.events k ring (JsMap.get?_eq_some_iff.mpr hmem)
    have hscope : resourceScopeSchema stored.scope = some stored.scope := (h.probes k stored hstored).1
    have hid := hi.probeId hstored
    have hvalues : array probeEventSchema ring = some ring := array_self.mpr fun a ha =>
      (hring.events a ha).parsed (by rwa [hring.own a ha])
    simp only [ringEntrySchema, hscope, hid, hvalues, Option.bind_eq_bind, Option.bind_some,
      Option.pure_def]
  · refine array_of_map fun r hr => ?_
    obtain ⟨k, hk⟩ := JsMap.mem_values_iff.mp hr
    have hg := JsMap.get?_eq_some_iff.mpr hk
    exact (h.services k r hg).parsed (hs.instanceCounts k r hg)
  · refine array_self.mpr fun e he => ?_
    obtain ⟨⟨k, status⟩, hmem, heq⟩ := List.mem_filterMap.mp he
    obtain ⟨stored, hstored, rfl⟩ := Option.map_eq_some_iff.mp heq
    have hstatus := (h.statuses k status (JsMap.get?_eq_some_iff.mpr hmem)).parsed
    have hscope : resourceScopeSchema stored.scope = some stored.scope := (h.probes k stored hstored).1
    simp only [statusEntrySchema, hscope, hi.probeId hstored, hstatus, Option.bind_eq_bind,
      Option.bind_some, Option.pure_def]
  · refine array_self.mpr fun e he => ?_
    obtain ⟨m, hm, rfl⟩ := List.mem_map.mp he
    obtain ⟨k, hk⟩ := JsMap.mem_values_iff.mp hm
    have hg := JsMap.get?_eq_some_iff.mpr hk
    exact sourceMapSet_parsed (hi.sourceMapSets k m hg) (h.sourceMapSets k m hg)
  · exact values h.nativeAgents fun _ _ _ ha => ha.parsed
  · exact values h.nativeInstances fun _ _ _ hi => hi.parsed
  · refine array_self.mpr fun e he => ?_
    obtain ⟨⟨k, status⟩, hmem, heq⟩ := List.mem_filterMap.mp he
    have hg := JsMap.get?_eq_some_iff.mpr hmem
    obtain ⟨sc, probeId, version, agentId, instanceId, buildId, rfl, hok, -⟩ := hp.statuses k status hg
    rw [nativeStatusEntry_plain hok] at heq
    obtain ⟨stored, hstored, rfl⟩ := Option.map_eq_some_iff.mp heq
    have hscope : resourceScopeSchema stored.scope = some stored.scope :=
      (h.probes _ stored hstored).1
    simp only [nativeStatusEntrySchema, hscope, hok.probe, hok.positive, hok.agent, hok.inst,
      hok.build, (h.nativeStatuses _ _ hg).status.parsed, Option.bind_eq_bind, Option.bind_some,
      Option.pure_def]
  · refine array_self.mpr fun e he => ?_
    obtain ⟨⟨k, version⟩, hmem, heq⟩ := List.mem_filterMap.mp he
    have hversion : nonnegativeInt version = some version := nonnegativeInt_eq_some.mpr
      ⟨hs.assignmentVersions k version (JsMap.get?_eq_some_iff.mpr hmem), rfl⟩
    rcases assignmentVersionEntry_plain h hp (k, version) with ⟨-, hnone⟩ | ⟨a, hg, -, hid, hsome⟩
    · rw [hnone] at heq
      cases heq
    · rw [hsome] at heq
      obtain rfl := Option.some.inj heq
      simp only [assignmentVersionSchema, (h.nativeAgents _ _ hg).scope, hid, hversion,
        Option.bind_eq_bind, Option.bind_some, Option.pure_def]

/-- `u` holds what a snapshot of `s` is to bring back. -/
structure Restored (s u : BrokerState) : Prop where
  probes : u.probes = s.probes
  serviceVersions : u.serviceVersions = s.serviceVersions
  events : u.events = s.events
  statuses : u.statuses = s.statuses
  sourceMapSets : u.sourceMapSets = s.sourceMapSets
  nativeAgents : u.nativeAgents = s.nativeAgents
  nativeInstances : u.nativeInstances = s.nativeInstances
  /-- The native statuses of existing probes. -/
  nativeStatuses : u.nativeStatuses = s.nativeStatuses.filter fun k _ => s.namesProbe k
  nativeAssignmentVersions : u.nativeAssignmentVersions = s.nativeAssignmentVersions

/-- A refilled state holds it. -/
theorem restored_refill (t : BrokerState) {n : ℕ} {b : BrokerSnapshot} (hi : Indexed s)
    (h : Records cfg .written s) (ho : OwnKeys s) (hb : s.snapshot n = some b) :
    Restored s (t.refill cfg b) := by
  have hp := plainNativeKeys_of_records h trivial ho
  have hcore := core_refill cfg t hi hb
  simp only [core, Prod.mk.injEq] at hcore
  refine ⟨hcore.1, hcore.2.1, ?_, statuses_refill t h hb, hcore.2.2.1, nativeAgents_refill t h hb,
    nativeInstances_refill t h hb, nativeStatuses_refill t h hp hb, ?_⟩
  · rw [events_refill t h hb]
    refine JsMap.mapVals_eq_self fun k ring hk => ?_
    have hring := h.events k ring hk
    obtain ⟨stored, hstored⟩ := Option.isSome_iff_exists.mp
      (h.known k (Or.inl (by rw [JsMap.has, hk]; rfl)))
    refine (List.map_congr_left fun e he => ?_).trans ring.map_id
    refine readEvent_eq_self.mpr (Kept.of_self ((hring.events e he).parsed ?_))
    rw [hring.own e he]
    exact hi.probeId hstored
  · rw [assignmentVersions_refill t h hp hb]
    refine JsMap.filter_eq_self fun k v hk => ?_
    refine h.assignmentVersions trivial k ?_
    rw [JsMap.has, JsMap.get?_eq_some_iff.mpr hk]
    rfl

end BrokerState

namespace Process

variable {cfg : Config}

/-- The steps of a run whose states can be written and read back. -/
def Written (p : Process) (e : ProcessEvent) : Prop :=
  Within .written e ∧
    ∀ now scope draws input, e = .request now scope (.createProbe draws input) →
      p.state.FreshDraws scope draws

/-- A new probe takes an identifier that is free for its scope. -/
def Fresh (p : Process) (e : ProcessEvent) : Prop :=
  ∀ now scope draws input, e = .request now scope (.createProbe draws input) → p.state.FreshDraws scope draws

/-- What a snapshot brings back of native keys that can be split. -/
theorem keyed_loadSnapshot {L : Limits} (hplain : L.plainIds) {s : BrokerState} (t : BrokerState) {n now : ℕ}
    {b : BrokerSnapshot} (hb : s.snapshot n = some b) (hc : L.clock now)
    (h : Indexed s ∧ Records cfg L s ∧ OwnKeys s) :
    Indexed (t.loadSnapshot cfg now b).1 ∧ Records cfg L (t.loadSnapshot cfg now b).1 ∧
      OwnKeys (t.loadSnapshot cfg now b).1 := by
  obtain ⟨hi, hr, ho⟩ := h
  refine ⟨?_, hr.loadSnapshot t hi hb hc, ?_⟩
  · rw [loadSnapshot_of_snapshot hb]
    exact (Indexed.refill (Broker.snapshotSchema_eq_some.mp hb)).expireDueProbes
  · rw [loadSnapshot_of_snapshot hb]
    exact (ho.refill t hi hr hplain hb).expireDueProbes

/-- Within any limits that keep NUL out of identifiers, native keys can be split. -/
theorem keyed_invariant {L : Limits} (hplain : L.plainIds) {s₀ : BrokerState}
    {ok : Process → ProcessEvent → Prop} (hok : ∀ p e, ok p e → Valid e ∧ Within L e ∧ Fresh p e)
    (base : Indexed s₀ ∧ Records cfg L s₀ ∧ OwnKeys s₀) {p : Process} (h : Reached (next cfg) ok ⟨s₀, []⟩ p) :
    Indexed p.state ∧ Records cfg L p.state ∧ OwnKeys p.state := by
  refine invariant_since (I := fun s => Indexed s ∧ Records cfg L s ∧ OwnKeys s) base ?_ ?_ ?_ h
  · rintro p now scope r ⟨hi, hr, ho⟩ he
    obtain ⟨hv, hL, hf⟩ := hok p _ he
    refine ⟨hi.handle hv, hr.handle hi hv hL, ho.handle hi hv fun draws input he => ?_⟩
    exact hf now scope draws input (by rw [he])
  · rintro p now ⟨hi, hr, ho⟩ he
    obtain ⟨-, hL, -⟩ := hok p _ he
    exact ⟨hi.expireDueProbes, hr.expireDueProbes hi hL, ho.expireDueProbes⟩
  · rintro p e now he hstep s t b n hs hb
    obtain ⟨-, hL, -⟩ := hok p e hstep
    have hc : L.clock now := by
      obtain ⟨index, rfl | rfl⟩ := he <;> exact hL
    exact keyed_loadSnapshot hplain t hb hc hs

theorem written_invariant {p : Process}
    (h : Reached (next cfg) (fun p e => Valid e ∧ Written p e) {} p) :
    Indexed p.state ∧ Records cfg .written p.state ∧ OwnKeys p.state :=
  keyed_invariant trivial (fun _ _ he => he) ⟨.init, .init, .empty⟩ h

/-- **A snapshot of a reachable state is accepted and gives the state back**, in
runs whose states can be written, as long as the counters are safe. -/
theorem snapshot_restores (cfg : Config) {p : Process}
    (h : Reached (next cfg) (fun p e => Valid e ∧ Written p e) {} p)
    (hs : p.state.SafeCounters) {n : ℕ} (hn : n < IsoDate.year10000) :
    ∃ b, p.state.snapshot n = some b ∧ ∀ now, p.state.Settled now →
      (({} : BrokerState).loadSnapshot cfg now b).2 = .ok () ∧
        Restored p.state (({} : BrokerState).loadSnapshot cfg now b).1 := by
  obtain ⟨hi, hr, ho⟩ := written_invariant h
  obtain ⟨b, hb⟩ := snapshot_accepted hi hr ho hs hn
  refine ⟨b, hb, fun now hsettled => ?_⟩
  have hrestored := restored_refill {} hi hr ho hb
  have hsettled' : (({} : BrokerState).refill cfg b).Settled now := by
    unfold BrokerState.Settled
    rwa [hrestored.probes]
  rw [loadSnapshot_of_snapshot hb, replaceWithSnapshot, hsettled'.expireDueProbes]
  exact ⟨rfl, hrestored⟩

/-- A batch that reports the counter armed and a hit of it. -/
def reported : IngestInput where
  serviceId := js "api"
  sdk := .node
  agentId := none
  commitSha := js "abc1234"
  commitSource := none
  capabilities := some []
  agentStatus := { state := .green }
  events := [
    { probeId := Sample.draw '1' 0, probeVersion := none, ts := js "2026-01-01T00:00:00.000Z"
      body := .status .armed none {} },
    { probeId := Sample.draw '1' 0, probeVersion := none, ts := js "2026-01-01T00:00:01.000Z"
      body := .counter 1 }]

/-- A counter is created, its agent reports, and a second counter is created. -/
def reportedRun : List ProcessEvent :=
  [.request 0 Sample.scope (.createProbe (Sample.draw '1') (Sample.counter 1)),
   .request 1 Sample.scope (.ingest reported),
   .request 2 Sample.scope (.createProbe (Sample.draw '2') (Sample.counter 2))]

theorem snapshot_restores_reported :
    ∃ b, (reportedRun.foldl (next Sample.config) {}).state.snapshot 3 = some b ∧
      ∀ now, (reportedRun.foldl (next Sample.config) {}).state.Settled now →
        (({} : BrokerState).loadSnapshot Sample.config now b).2 = .ok () ∧
          Restored (reportedRun.foldl (next Sample.config) {}).state
            (({} : BrokerState).loadSnapshot Sample.config now b).1 := by
  have hscope : resourceScopeSchema Sample.scope = some Sample.scope := by decide
  have hvalid : Protocol.ingestSchema reported = some reported := rfl
  have hclock {now : ℕ} (hnow : now < 3) : now < IsoDate.year10000 := by
    have hyear : 3 < IsoDate.year10000 := by decide
    omega
  have hcreate (p : Process) (hp : p.state.nativeStatuses.size = 0) (now : ℕ) (hnow : now < 3) (last : Char)
      (line : ℕ) :
      Written p (.request now Sample.scope (.createProbe (Sample.draw last) (Sample.counter line))) := by
    refine ⟨⟨hclock hnow, hscope, ?_, by simp, by simp, by simp⟩, ?_⟩
    · rintro draws input ⟨⟩
      show now + 1800 * 1000 ≤ 9007199254740991
      omega
    · -- no native agent has reported, so every identifier is free
      rintro now scope draws input ⟨⟩ m - sc rest hk
      obtain ⟨v, hv⟩ := Option.isSome_iff_exists.mp hk
      exact (JsMap.All.of_size hp (P := fun _ _ => False) _ v hv).elim
  have hreport (p : Process) : Written p (.request 1 Sample.scope (.ingest reported)) :=
    ⟨⟨hclock (by omega), hscope, by simp, by simp, by simp, by simp⟩, by simp⟩
  refine snapshot_restores Sample.config (p := reportedRun.foldl (next Sample.config) {})
    (Reached.init.foldl ⟨⟨Sample.counter_valid 1 (by simp), hcreate _ rfl 0 (by omega) _ _⟩,
      ⟨hvalid, hreport _⟩,
      ⟨Sample.counter_valid 2 (by simp), hcreate _ (by decide) 2 (by omega) _ _⟩, trivial⟩)
    ⟨?_, .of_size (by decide), ?_⟩ (by decide)
  · have hversions : (reportedRun.foldl (next Sample.config) {}).state.serviceVersions.values.all
        (fun v => decide (v.version ≤ maxSafeInteger)) = true := by decide
    intro k v hk
    have := List.all_eq_true.mp hversions v (JsMap.mem_values_iff.mpr ⟨k, JsMap.get?_eq_some_iff.mp hk⟩)
    exact of_decide_eq_true this
  · have hcounts : (reportedRun.foldl (next Sample.config) {}).state.services.values.all
        (fun r => r.instanceCount.all fun n => decide (n ≤ maxSafeInteger)) = true := by decide
    intro k r hk n hn
    have hr := List.all_eq_true.mp hcounts r (JsMap.mem_values_iff.mpr ⟨k, JsMap.get?_eq_some_iff.mp hk⟩)
    rw [Option.mem_def.mp hn] at hr
    exact of_decide_eq_true hr

/-- A counter that is to live for as many seconds as there are safe integers. -/
def lasting : CreateProbeInput := { Sample.counter 1 with ttlSeconds := maxSafeInteger }

/-- **A probe with a long life makes every snapshot fail.** -/
theorem snapshot_rejected :
    ¬∀ (p : Process), Reached (next Sample.config) (fun _ e => Valid e) {} p →
      ∀ n, n < IsoDate.year10000 → ∃ b, p.state.snapshot n = some b := by
  intro h
  have hvalid : createProbeInputSchema lasting = some lasting := by decide
  have hnone : ((next Sample.config {}
      (.request 0 Sample.scope (.createProbe (Sample.draw '1') lasting))).state.snapshot 1).isSome =
      false := by decide
  have hreached : Reached (next Sample.config) (fun _ e => Valid e) {} (next Sample.config {}
      (.request 0 Sample.scope (.createProbe (Sample.draw '1') lasting))) :=
    Reached.init.step _ hvalid
  obtain ⟨b, hb⟩ := h _ hreached 1 (by decide)
  rw [hb] at hnone
  cases hnone

end Process
