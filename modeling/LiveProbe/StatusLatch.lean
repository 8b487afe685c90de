/-
LiveProbe/StatusLatch.lean

A native status that ends an assignment latches: as long as the probe exists, no
later assignment lists the probe for that instance and build.

No event of the instance takes an ended status back (`ended_change`), and no
other request writes native statuses.  A snapshot writes a status under the parts
of its key, found by splitting the key at its NULs.  So the latch goes through a
snapshot where the identifiers hold no NUL; with one that does, the status is
read back under another key, and the probe is assigned again.
-/
import LiveProbe.Listening

open JsString Broker BrokerState

namespace BrokerState

variable {cfg : Config} {now : ℕ} {scope : ResourceScope} {r : Request} {s t : BrokerState}
  {key id : JsString} {version : ℕ}

/-- The probe exists with that version. -/
def Stored (s : BrokerState) (scope : ResourceScope) (probeId : JsString) (version : ℕ) : Prop :=
  ∃ stored, s.probes.get? probeId = some stored ∧ stored.scope = scope ∧ stored.probe.version = version

theorem ended_congr (h : t.nativeStatuses = s.nativeStatuses) : t.ended key = s.ended key := by
  rw [ended, ended, h]

/-- An ended status is not taken back. -/
theorem ended_change (h : s.ended key = true) (hc : Change cfg now scope r s t) : t.ended key = true := by
  rcases nativeStatuses_change hc with hsame | ⟨input, e, stored, status, -, -, -, -, -, hnew, -, hset⟩
  · rwa [ended_congr hsame]
  · unfold ended at h ⊢
    rw [hset, JsMap.get?_set]
    split
    · next hkey =>
      -- the new status is recorded only if it ends the assignment as well
      obtain ⟨previous, hprevious, hends⟩ := (Option.any_eq_true _ _).mp h
      rw [← hkey, hprevious, Option.any_some, keepsPrevious, Bool.or_eq_false_iff, hends, Bool.true_and,
        Bool.not_eq_false'] at hnew
      rw [Option.any_some]
      exact hnew.2
    · exact h

theorem ended_handle (h : s.ended key = true) : (s.handle cfg now scope r).1.ended key = true := by
  have hc := handle_changes cfg now scope r s
  generalize (s.handle cfg now scope r).1 = t at hc ⊢
  induction hc with
  | refl => exact h
  | tail _ hc ih => exact ended_change ih hc

theorem ended_expireDueProbes (h : s.ended key = true) : (s.expireDueProbes cfg now).ended key = true := by
  have hc : Change cfg now ⟨[], [], []⟩ .listServices s (s.expireDueProbes cfg now) := .expire
  exact ended_change h hc

/-- Expiring keeps the probes that exist. -/
theorem Stored.expireDueProbes (h : s.Stored scope id version) :
    (s.expireDueProbes cfg now).Stored scope id version := by
  obtain ⟨p, hp, hscope, hversion⟩ := h
  refine ⟨p.expire now, ?_, ?_, ?_⟩
  · rw [probes_expireDueProbes, JsMap.get?_mapVals, hp, Option.map_some]
  all_goals
    unfold StoredProbe.expire
    split <;> assumption

/-- A snapshot brings back the probes that exist. -/
theorem Stored.loadSnapshot (hi : Indexed s) (h : s.Stored scope id version) {n : ℕ} {b : BrokerSnapshot}
    (hb : s.snapshot n = some b) (t : BrokerState) : (t.loadSnapshot cfg now b).1.Stored scope id version := by
  rw [loadSnapshot_of_snapshot hb]
  have hcore := core_refill cfg t hi hb
  simp only [core, Prod.mk.injEq] at hcore
  obtain ⟨p, hp, hkept⟩ := h
  have hrefilled : (t.refill cfg b).Stored scope id version := ⟨p, by rw [hcore.1, hp], hkept⟩
  exact hrefilled.expireDueProbes

/-- An ended status of a stored probe goes through a snapshot. -/
theorem ended_loadSnapshot {L : Limits} (hplain : L.plainIds) (hi : Indexed s) (hr : Records cfg L s)
    (ho : OwnKeys s) {probeId agentId instanceId buildId : JsString} {version : ℕ}
    (hstored : s.Stored scope probeId version)
    (h : s.ended (nativeStatusKey scope probeId version agentId instanceId buildId) = true) {n : ℕ}
    {b : BrokerSnapshot} (hb : s.snapshot n = some b) (t : BrokerState) :
    (t.loadSnapshot cfg now b).1.ended (nativeStatusKey scope probeId version agentId instanceId buildId) =
      true := by
  rw [loadSnapshot_of_snapshot hb]
  apply ended_expireDueProbes
  have hkeys := plainNativeKeys_of_records hr hplain ho
  obtain ⟨status, hstatus, hends⟩ := (Option.any_eq_true _ _).mp h
  obtain ⟨stored, hprobe, -⟩ := hstored
  -- the key has plain parts, and its probe is the one that is stored
  obtain ⟨scope', probeId', version', agentId', instanceId', buildId', hkey, hok, -⟩ :=
    hkeys.statuses _ status hstatus
  have hid : probeId = probeId' :=
    (append_nul_inj (nul_notMem_probeId (hi.probeId hprobe)) (nul_notMem_probeId hok.probe)
      (scopeKey_append_inj hkey).2).1
  have hnames : s.namesProbe (nativeStatusKey scope probeId version agentId instanceId buildId) = true := by
    rw [hkey, namesProbe, splitNul_of_plain trivial hok]
    show s.probes.has probeId' = true
    rw [JsMap.has, ← hid, hprobe]
    rfl
  rw [ended, nativeStatuses_refill t hr hkeys hb, JsMap.get?_filter, hstatus]
  simpa [hnames] using hends

/-- No answer lists a probe whose status has ended. -/
theorem not_listed_of_ended {agentId instanceId buildId probeId : JsString} {version : ℕ}
    (h : s.ended (nativeStatusKey scope probeId version agentId instanceId buildId) = true) {since : ℤ}
    {allowed : List JsString} {answer : NativeAssignments}
    (hanswer : (s.nativeAssignments cfg now agentId since scope allowed).2 = .ok answer) :
    ∀ a ∈ answer.assignments, a.instanceId = instanceId → a.buildId = buildId →
      ∀ probe ∈ a.probes, ¬ (probe.id = probeId ∧ probe.version = version) := by
  have hexpired := @ended_expireDueProbes cfg now s _ h
  unfold nativeAssignments at hanswer
  split at hanswer
  · cases hanswer
    intro a ha
    dsimp only at ha
    split at ha
    · cases ha
    · obtain ⟨i, -, rfl⟩ := List.mem_map.mp ha
      rintro rfl rfl probe hprobe ⟨rfl, rfl⟩
      have hopen := (List.mem_filter.mp hprobe).2
      rw [show (s.expireDueProbes cfg now).nativeTerminal probe i agentId scope = true from hexpired] at hopen
      cases hopen
  · cases hanswer

end BrokerState

namespace Process

variable {cfg : Config}

/-- The steps of a run in which no identifier of a native agent or instance holds a NUL
and no new probe takes an identifier that a native status of another scope names. -/
def Plain (p : Process) (e : ProcessEvent) : Prop := Valid e ∧ Within .plain e ∧ Fresh p e

/-- **The latch of native statuses.**  Once a status that ends an assignment is
recorded, then as long as the probe exists with that version no answer lists it for
the agent, the instance and the build. -/
theorem ended_latches {p₀ p : Process} {scope : ResourceScope}
    {probeId agentId instanceId buildId : JsString} {version : ℕ}
    (h₀ : Reached (next cfg) Plain {} p₀) (hstored : p₀.state.Stored scope probeId version)
    (hended : p₀.state.ended (nativeStatusKey scope probeId version agentId instanceId buildId) = true)
    (h : Reached (next cfg) (fun p e => Plain p e ∧ (next cfg p e).state.Stored scope probeId version)
      ⟨p₀.state, []⟩ p) :
    ∀ now since allowed answer,
      (p.state.nativeAssignments cfg now agentId since scope allowed).2 = .ok answer →
        ∀ a ∈ answer.assignments, a.instanceId = instanceId → a.buildId = buildId →
          ∀ probe ∈ a.probes, ¬ (probe.id = probeId ∧ probe.version = version) := by
  have hbase := keyed_invariant (L := .plain) trivial (fun _ _ he => he) ⟨.init, .init, .empty⟩ h₀
  suffices hlatched : (Indexed p.state ∧ Records cfg .plain p.state ∧ OwnKeys p.state) ∧
      p.state.Stored scope probeId version ∧
        p.state.ended (nativeStatusKey scope probeId version agentId instanceId buildId) = true by
    intro now since allowed answer hanswer
    exact not_listed_of_ended hlatched.2.2 hanswer
  refine invariant_since (I := fun s => (Indexed s ∧ Records cfg .plain s ∧ OwnKeys s) ∧
    s.Stored scope probeId version ∧
      s.ended (nativeStatusKey scope probeId version agentId instanceId buildId) = true)
    ⟨hbase, hstored, hended⟩ ?_ ?_ ?_ h
  · rintro p now scope' r ⟨⟨hi, hr, ho⟩, -, hlatched⟩ ⟨⟨hv, hL, hf⟩, hnext⟩
    refine ⟨⟨hi.handle hv, hr.handle hi hv hL, ho.handle hi hv fun draws input he => ?_⟩, hnext,
      ended_handle hlatched⟩
    exact hf now scope' draws input (by rw [he])
  · rintro p now ⟨⟨hi, hr, ho⟩, hs, hlatched⟩ ⟨⟨-, hL, -⟩, -⟩
    exact ⟨⟨hi.expireDueProbes, hr.expireDueProbes hi hL, ho.expireDueProbes⟩, hs.expireDueProbes,
      ended_expireDueProbes hlatched⟩
  · rintro p e now - - s t b n ⟨⟨hi, hr, ho⟩, hs, hlatched⟩ hb
    refine ⟨keyed_loadSnapshot trivial t hb trivial ⟨hi, hr, ho⟩, hs.loadSnapshot hi hb t, ?_⟩
    exact ended_loadSnapshot trivial hi hr ho hs hlatched hb t

end Process

/-! ### A counter that an agent has ended -/

namespace Sample

/-- The agent reports that the counter exceeded its limit. -/
def endedSource (agentId : JsString) : NativeIngestEnvelope :=
  { source with
    agentId
    events := [⟨draw '1' 0, some 1, siteEarly, .status .hitLimitReached none
      { agentId := some agentId, instanceId := some instanceA, buildId := some build }⟩] }

def ending (agentId : JsString) : List ProcessEvent :=
  [.request 0 scope (.createProbe (draw '1') (counter 1)),
    .request 0 scope (.registerNativeAgent (registration agentId)),
    .request 0 scope (.replaceNativeInstances agentId [nativeInstance instanceA build] [js "*"]),
    .request 1000 scope (.ingestNative (endedSource agentId))]

def endedBy (agentId : JsString) : Process := (ending agentId).foldl (Process.next config) {}

/-- A snapshot is written and read back. -/
def roundTrip : List ProcessEvent := [.save 2000, .load 2000 0]

def readBack (agentId : JsString) : Process :=
  roundTrip.foldl (Process.next config) ⟨(endedBy agentId).state, []⟩

/-- The key of the agent's status of the counter. -/
def endedKey (agentId : JsString) : JsString := nativeStatusKey scope (draw '1' 0) 1 agentId instanceA build

/-- Whether an answer to the agent lists the counter. -/
def lists (s : BrokerState) (agentId : JsString) : Bool :=
  match (s.nativeAssignments config 3000 agentId (-1) scope [js "*"]).2 with
  | .ok answer => answer.assignments.any fun a => a.instanceId = instanceA && a.buildId = build &&
      a.probes.any fun probe => probe.id = draw '1' 0 && probe.version = 1
  | .error _ => false

theorem exists_of_lists {s : BrokerState} {agentId : JsString} (h : lists s agentId = true) :
    ∃ answer, (s.nativeAssignments config 3000 agentId (-1) scope [js "*"]).2 = .ok answer ∧
      ∃ a ∈ answer.assignments, a.instanceId = instanceA ∧ a.buildId = build ∧
        ∃ probe ∈ a.probes, probe.id = draw '1' 0 ∧ probe.version = 1 := by
  unfold lists at h
  split at h
  · next answer hanswer =>
    refine ⟨answer, hanswer, ?_⟩
    simpa [List.any_eq_true, and_assoc] using h
  · cases h

/-- An agent whose identifier reads as one with an instance and a build. -/
def nulAgent : JsString := js "a" ++ nul :: (js "b" ++ nul :: build)

theorem endedSource_valid {agentId : JsString} (hagent : Protocol.agentIdSchema agentId = some agentId)
    (hmetadata : Protocol.nativeStatusMetadataSchema
      { agentId := some agentId, instanceId := some instanceA, buildId := some build } =
        some { agentId := some agentId, instanceId := some instanceA, buildId := some build }) :
    Protocol.nativeIngestEnvelopeSchema (endedSource agentId) = some (endedSource agentId) := by
  have hids : Protocol.serviceIdSchema source.serviceId = some source.serviceId ∧
      Protocol.instanceIdSchema source.instanceId = some source.instanceId ∧
      Protocol.buildIdSchema source.buildId = some source.buildId ∧
      Protocol.nativeAgentStatusSchema source.agentStatus = some source.agentStatus ∧
      Protocol.probeIdSchema (draw '1' 0) = some (draw '1' 0) := by
    decide
  obtain ⟨h₁, h₂, h₃, h₄, hid⟩ := hids
  have hevents : Schema.boundedArray Protocol.nativeProbeEventSchema 0 1000 (endedSource agentId).events =
      some (endedSource agentId).events := by
    refine Schema.boundedArray_self.mpr ⟨fun e he => ?_, Nat.zero_le _, Nat.le_of_ble_eq_true rfl⟩
    rw [List.mem_singleton.mp he]
    exact Protocol.nativeProbeEventSchema_self.mpr ⟨hid, ⟨1, rfl, rfl⟩, siteTs_parsed.1,
      Protocol.eventBodySchema_status_self.mpr ⟨rfl, hmetadata⟩⟩
  simp only [endedSource] at hevents ⊢
  simp only [Protocol.nativeIngestEnvelopeSchema, hagent, h₁, h₂, h₃, h₄, hevents, Option.bind_eq_bind,
    Option.bind_some, Option.pure_def]

/-- The run of a known agent passes the schemas, within limits that its identifier meets. -/
theorem endedBy_reached {L : Limits} {agentId : JsString} (hid : agentId ∈ [agent, nulAgent])
    (hL : ∀ now r, (ProcessEvent.request now scope r) ∈ ending agentId → L.Admits now scope r) :
    Reached (Process.next config) (fun p e => Process.Valid e ∧ Process.Within L e ∧ Process.Fresh p e) {}
      (endedBy agentId) := by
  have hschemas : ∀ id ∈ [agent, nulAgent], Protocol.agentIdSchema id = some id ∧
      Protocol.nativeAgentRegistrationSchema (registration id) = some (registration id) ∧
      Protocol.nativeStatusMetadataSchema
        { agentId := some id, instanceId := some instanceA, buildId := some build } =
          some { agentId := some id, instanceId := some instanceA, buildId := some build } := by
    decide
  have hinstances : Protocol.nativeInstanceSetSchema [nativeInstance instanceA build] =
      some [nativeInstance instanceA build] := by decide
  obtain ⟨hagent, hregister, hmetadata⟩ := hschemas agentId hid
  refine Reached.foldl .init ⟨⟨counter_valid 1 List.mem_cons_self, hL _ _ (by simp [ending]), ?_⟩,
    ⟨hregister, hL _ _ (by simp [ending]), ?_⟩, ⟨⟨hagent, hinstances⟩, hL _ _ (by simp [ending]), ?_⟩,
    ⟨endedSource_valid hagent hmetadata, hL _ _ (by simp [ending]), ?_⟩, trivial⟩
  · -- no status is recorded yet
    rintro now sc draws input - n hn sc' rest hk
    cases hk
  all_goals
    intro now sc draws input he
    cases he

/-- The counter exists before the snapshot and after it, and its status has ended before. -/
theorem endedBy_ended : ∀ agentId ∈ [agent, nulAgent],
    (endedBy agentId).state.Stored scope (draw '1' 0) 1 ∧ (readBack agentId).state.Stored scope (draw '1' 0) 1 ∧
      (endedBy agentId).state.ended (endedKey agentId) = true := by
  have hexists : ∀ s : BrokerState, (s.probes.get? (draw '1' 0)).any (fun p =>
      p.scope = scope && p.probe.version = 1) = true → s.Stored scope (draw '1' 0) 1 := by
    intro s hs
    obtain ⟨p, hp, hkept⟩ := (Option.any_eq_true _ _).mp hs
    rw [Bool.and_eq_true, decide_eq_true_eq, decide_eq_true_eq] at hkept
    exact ⟨p, hp, hkept⟩
  have hstates : ∀ agentId ∈ [agent, nulAgent],
      ((endedBy agentId).state.probes.get? (draw '1' 0)).any (fun p =>
        p.scope = scope && p.probe.version = 1) = true ∧
      ((readBack agentId).state.probes.get? (draw '1' 0)).any (fun p =>
        p.scope = scope && p.probe.version = 1) = true ∧
      (endedBy agentId).state.ended (endedKey agentId) = true := by
    decide +kernel
  intro agentId hid
  obtain ⟨hbefore, hafter, hended⟩ := hstates agentId hid
  exact ⟨hexists _ hbefore, hexists _ hafter, hended⟩

/-- The round trip, in which the counter exists. -/
theorem readBack_reached {ok : Process → ProcessEvent → Prop} {agentId : JsString}
    (hid : agentId ∈ [agent, nulAgent])
    (hok : ∀ p, ok p (.save 2000) ∧ ok p (.load 2000 0)) :
    Reached (Process.next config)
      (fun p e => ok p e ∧ (Process.next config p e).state.Stored scope (draw '1' 0) 1)
      ⟨(endedBy agentId).state, []⟩ (readBack agentId) := by
  have hrun : ∀ s : BrokerState, s.Stored scope (draw '1' 0) 1 →
      (roundTrip.foldl (Process.next config) ⟨s, []⟩).state.Stored scope (draw '1' 0) 1 →
      Reached (Process.next config)
        (fun p e => ok p e ∧ (Process.next config p e).state.Stored scope (draw '1' 0) 1) ⟨s, []⟩
        (roundTrip.foldl (Process.next config) ⟨s, []⟩) := by
    intro s hbefore hafter
    exact Reached.foldl .init ⟨⟨(hok _).1, hbefore⟩, ⟨(hok _).2, hafter⟩, trivial⟩
  obtain ⟨hbefore, hafter, -⟩ := endedBy_ended agentId hid
  exact hrun _ hbefore hafter

/-- The agent is not given the counter again. -/
theorem readBack_latched : lists (readBack agent).state agent = false := by
  rw [← Bool.not_eq_true]
  intro hlists
  obtain ⟨answer, hanswer, a, ha, hinstance, hbuild, probe, hprobe, hlisted⟩ := exists_of_lists hlists
  obtain ⟨hbefore, -, hended⟩ := endedBy_ended agent List.mem_cons_self
  have hnul : nul ∉ agent ∧ nul ∉ instanceA := by decide
  have hrun := endedBy_reached (L := .plain) List.mem_cons_self fun now r hr => by
    refine Limits.plain_admits (fun input h => ?_) (fun id instances allowed h i hi => ?_)
    · subst h
      simp only [ending, List.mem_cons, List.not_mem_nil, or_false, ProcessEvent.request.injEq, reduceCtorEq,
        and_false, false_or, Request.registerNativeAgent.injEq] at hr
      rw [hr.2.2]
      exact hnul.1
    · subst h
      simp only [ending, List.mem_cons, List.not_mem_nil, or_false, ProcessEvent.request.injEq, reduceCtorEq,
        and_false, false_or, Request.replaceNativeInstances.injEq] at hr
      rw [hr.2.2.2.1, List.mem_singleton] at hi
      rw [hi]
      exact hnul.2
  have hback := @readBack_reached Process.Plain agent List.mem_cons_self fun p =>
    ⟨⟨trivial, trivial, fun _ _ _ _ h => by cases h⟩, trivial, trivial, fun _ _ _ _ h => by cases h⟩
  exact Process.ended_latches hrun hbefore hended hback _ _ _ _ hanswer a ha hinstance hbuild probe hprobe
    hlisted

/-- An agent whose identifier holds NULs is given the counter again, after a snapshot. -/
theorem readBack_assigned : ∃ p₀ p, ∃ agentId, Reached (Process.next config)
      (fun p e => Process.Valid e ∧ Process.Fresh p e) {} p₀ ∧
    p₀.state.ended (nativeStatusKey scope (draw '1' 0) 1 agentId instanceA build) = true ∧
    Reached (Process.next config) (fun p e => (Process.Valid e ∧ Process.Fresh p e) ∧
      (Process.next config p e).state.Stored scope (draw '1' 0) 1) ⟨p₀.state, []⟩ p ∧
    ∃ now since allowed answer,
      (p.state.nativeAssignments config now agentId since scope allowed).2 = .ok answer ∧
        ∃ a ∈ answer.assignments, a.instanceId = instanceA ∧ a.buildId = build ∧
          ∃ probe ∈ a.probes, probe.id = draw '1' 0 ∧ probe.version = 1 := by
  have hid : nulAgent ∈ [agent, nulAgent] := List.mem_cons_of_mem _ List.mem_cons_self
  have hrun := endedBy_reached (L := .schemas) hid fun now r _ => Limits.schemas_admits now scope r
  refine ⟨endedBy nulAgent, readBack nulAgent, nulAgent, hrun.mono fun p e h => ⟨h.1, h.2.2⟩,
    (endedBy_ended _ hid).2.2, readBack_reached hid fun p => ⟨⟨trivial, fun _ _ _ _ h => by cases h⟩,
      trivial, fun _ _ _ _ h => by cases h⟩, 3000, -1, [js "*"], ?_⟩
  exact exists_of_lists (by decide +kernel)

end Sample
