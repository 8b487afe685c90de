/-
LiveProbe/Restriction.lean

The part of the state that concerns one scope.

All scopes share the maps of `BrokerState`.  The keys of most are composite and
begin with the text of a scope (`inScope`); probes, their events and their
statuses are keyed by the probe's identifier alone, so whose they are is told
by a function `owner` of the identifier.  `restrict` keeps the entries of one
scope.

`restrict_expireDueProbes` is the first commutation: expiry works on all
scopes at once, and on each as if it were alone.  The shared methods are
treated here, in the scope itself and in another one.
-/
import LiveProbe.Effects
import LiveProbe.Process

open JsString Broker BrokerState

/-! ### Keys and scopes -/

/-- Whether a key starts with the text of a scope. -/
def inScope (sc : ResourceScope) (k : JsString) : Bool := (resourceScopeKey sc ++ [nul]).isPrefixOf k

variable {sc scope : ResourceScope}

/-- A composite key lies in the scope it was made for. -/
theorem inScope_append (r : JsString) :
    inScope sc (resourceScopeKey scope ++ nul :: r) = decide (scope = sc) := by
  rw [Bool.eq_iff_iff, inScope, List.isPrefixOf_iff_prefix, decide_eq_true_eq]
  constructor
  · rintro ⟨r', h⟩
    rw [List.append_assoc] at h
    exact (scopeKey_append_inj h).1.symm
  · rintro rfl
    exact ⟨r, by rw [List.append_assoc]; rfl⟩

/-- Every key starts with its scope. -/
@[simp] theorem inScope_serviceKey (serviceId : JsString) :
    inScope sc (serviceKey scope serviceId) = decide (scope = sc) := inScope_append _

@[simp] theorem inScope_sourceMapKey (serviceId commitSha : JsString) :
    inScope sc (sourceMapKey scope serviceId commitSha) = decide (scope = sc) := by
  rw [sourceMapKey, serviceKey, List.append_assoc]
  exact inScope_append _

@[simp] theorem inScope_nativeAgentKey (agentId : JsString) :
    inScope sc (nativeAgentKey scope agentId) = decide (scope = sc) := inScope_append _

@[simp] theorem inScope_nativeInstanceKey (agentId instanceId : JsString) :
    inScope sc (nativeInstanceKey scope agentId instanceId) = decide (scope = sc) := by
  rw [nativeInstanceKey, nativeAgentKey, List.append_assoc]
  exact inScope_append _

@[simp] theorem inScope_nativeStatusKey (probeId : JsString) (version : ℕ)
    (agentId instanceId buildId : JsString) :
    inScope sc (nativeStatusKey scope probeId version agentId instanceId buildId) =
      decide (scope = sc) := inScope_append _

namespace JsMap

/-- Values picked out by a test that holds of kept entries only. -/
theorem filter_values_filter {κ α : Type*} [DecidableEq κ] {m : JsMap κ α} {p : κ → Bool}
    {q : α → Bool} (h : m.All fun k v => q v = true → p k = true) :
    (m.filter fun k _ => p k).values.filter q = m.values.filter q := by
  simp only [values, entries_filter, List.filter_map, List.filter_filter]
  congr 1
  refine List.filter_congr fun e he => ?_
  rw [Bool.eq_iff_iff, Bool.and_eq_true]
  exact ⟨fun hq => hq.1, fun hq => ⟨hq, h e.1 e.2 (get?_eq_some_iff.mpr he) hq⟩⟩

end JsMap

namespace BrokerState

/-- The entries of a map whose keys pass a test. -/
def part {α : Type} (p : JsString → Bool) (m : JsMap JsString α) : JsMap JsString α :=
  m.filter fun k _ => p k

/-- Whether an identifier is one of a scope's probes; `owner` says whose it is. -/
def ownId (owner : JsString → ResourceScope) (sc : ResourceScope) (id : JsString) : Bool :=
  owner id = sc

theorem ownId_of {owner : JsString → ResourceScope} {id : JsString} (h : owner id = sc) :
    ownId owner sc id = true :=
  decide_eq_true h

theorem ownId_of_ne {owner : JsString → ResourceScope} {id : JsString} (h : owner id ≠ sc) :
    ownId owner sc id = false :=
  decide_eq_false h

/-- The state as far as it concerns a scope, with removed probes of its own. -/
def restrict (owner : JsString → ResourceScope) (sc : ResourceScope) (removed : JsMap JsString ℕ)
    (s : BrokerState) : BrokerState where
  probes := part (ownId owner sc) s.probes
  serviceVersions := part (inScope sc) s.serviceVersions
  events := part (ownId owner sc) s.events
  services := part (inScope sc) s.services
  agentCapabilityReports := part (inScope sc) s.agentCapabilityReports
  statuses := part (ownId owner sc) s.statuses
  sourceMapSets := part (inScope sc) s.sourceMapSets
  sourceMapLeases := part (inScope sc) s.sourceMapLeases
  nativeAgents := part (inScope sc) s.nativeAgents
  nativeInstances := part (inScope sc) s.nativeInstances
  nativeStatuses := part (inScope sc) s.nativeStatuses
  recentlyRemovedProbes := removed
  nativeIngestHealth := part (inScope sc) s.nativeIngestHealth
  nativeAssignmentVersions := part (inScope sc) s.nativeAssignmentVersions

section

variable {α : Type} {p : JsString → Bool} {m : JsMap JsString α} {k : JsString}

theorem get?_part (h : p k = true) : (part p m).get? k = m.get? k := JsMap.get?_filter_of_pos h

/-- A write to the part is seen in it. -/
theorem part_set_own (h : p k = true) (v : α) : part p (m.set k v) = (part p m).set k v :=
  JsMap.filter_set_of_pos h v

/-- A write outside the part is not seen in it. -/
theorem part_set_foreign (h : p k = false) (v : α) : part p (m.set k v) = part p m :=
  JsMap.filter_set_of_neg h v

theorem part_filter (q : JsString → α → Bool) (m : JsMap JsString α) :
    part p (m.filter q) = (part p m).filter q :=
  JsMap.filter_comm _ _ m

theorem part_delete_own (m : JsMap JsString α) (k : JsString) :
    part p (m.delete k) = (part p m).delete k :=
  JsMap.filter_delete

theorem part_delete_foreign (h : p k = false) : part p (m.delete k) = part p m :=
  JsMap.filter_delete_of_neg h

end

variable {owner : JsString → ResourceScope} {removed : JsMap JsString ℕ} {s : BrokerState}
  {cfg : Config} {now : ℕ}

/-! ### The invariant -/

/-- Every entry that tells its scope sits under a key of that scope. -/
structure Placed (owner : JsString → ResourceScope) (s : BrokerState) : Prop where
  probes : s.probes.All fun k p => k = p.probe.id ∧ owner k = p.scope
  services : s.services.All fun k r => inScope r.scope k = true
  sourceMapSets : s.sourceMapSets.All fun k m => inScope m.scope k = true
  nativeInstances : s.nativeInstances.All fun k i => inScope i.scope k = true

/-! ### Shared methods, in the scope itself -/

/-- Whoever asks for instances of the scope finds all of them. -/
theorem instances_restrict (h : Placed owner s) {q : NativeInstanceRecord → Bool}
    (hq : ∀ i, q i = true → i.scope = sc) :
    (s.restrict owner sc removed).nativeInstances.values.filter q = s.nativeInstances.values.filter q :=
  JsMap.filter_values_filter fun k i hk hqi => by
    have hin : inScope i.scope k = true := h.nativeInstances k i hk
    rwa [hq i hqi] at hin

theorem serviceAgents_restrict (h : Placed owner s) (serviceId : JsString) :
    (s.restrict owner sc removed).serviceAgents sc serviceId = s.serviceAgents sc serviceId := by
  rw [serviceAgents, instances_restrict h fun i hi => ?_, serviceAgents]
  rw [Bool.and_eq_true, decide_eq_true_eq] at hi
  exact hi.1

@[simp] theorem serviceVersion_restrict (serviceId : JsString) :
    (s.restrict owner sc removed).serviceVersion sc serviceId = s.serviceVersion sc serviceId := by
  simp only [serviceVersion, restrict]
  rw [get?_part (by simp)]

/-- Versions of the scope are drawn from versions of the scope. -/
theorem part_bump_own (l : List JsString) (m : JsMap JsString ℕ) :
    part (inScope sc) (l.foldl (bumpNativeAssignmentVersion sc) m) =
      l.foldl (bumpNativeAssignmentVersion sc) (part (inScope sc) m) := by
  refine (List.foldl_hom (part (inScope sc)) fun m agentId => ?_).symm
  rw [bumpNativeAssignmentVersion, bumpNativeAssignmentVersion, part_set_own (by simp), get?_part (by simp)]

/-- The agents whose versions rise are agents of the scope. -/
theorem restrict_incrementServiceVersion (h : Placed owner s) (serviceId : JsString) :
    (s.incrementServiceVersion serviceId sc).restrict owner sc removed =
      (s.restrict owner sc removed).incrementServiceVersion serviceId sc := by
  simp only [incrementServiceVersion, serviceVersion_restrict, serviceAgents_restrict h]
  simp only [restrict, part_bump_own]
  rw [part_set_own (by simp)]

/-- The ring of a probe of the scope is in the part. -/
theorem restrict_appendEvent {e : ProbeEvent} (h : owner e.probeId = sc) :
    (s.appendEvent cfg e).restrict owner sc removed = (s.restrict owner sc removed).appendEvent cfg e := by
  have hown : ownId owner sc e.probeId = true := ownId_of h
  simp only [restrict, appendEvent]
  rw [part_set_own hown, get?_part hown]

/-- So is its status. -/
theorem restrict_setStatus {id : JsString} (h : owner id = sc) (status : ProbeStatus) :
    ({ s with statuses := s.statuses.set id status }).restrict owner sc removed =
      { s.restrict owner sc removed with
        statuses := (s.restrict owner sc removed).statuses.set id status } := by
  simp only [restrict]
  rw [part_set_own (ownId_of h)]

/-- The record that is updated is the one in the part. -/
theorem restrict_touchService (serviceId : JsString) (sdk : Option AgentSdk)
    (status : Option AgentStatus) (commit : Option JsString) (source : Option CommitSource)
    (capabilities : Option (List JsString)) :
    (s.touchService now serviceId sdk status commit source sc capabilities).restrict owner sc removed =
      (s.restrict owner sc removed).touchService now serviceId sdk status commit source sc capabilities := by
  simp only [restrict, touchService]
  rw [part_set_own (by simp), get?_part (by simp)]

theorem restrict_reportAgentCapabilities (serviceId agentId : JsString) (capabilities : List JsString) :
    (s.reportAgentCapabilities now sc serviceId agentId capabilities).restrict owner sc removed =
      (s.restrict owner sc removed).reportAgentCapabilities now sc serviceId agentId capabilities := by
  simp only [restrict, reportAgentCapabilities]
  rw [part_set_own (by simp), get?_part (by simp)]

/-- Reports of other scopes are not counted. -/
@[simp] theorem activeCapabilities_restrict (serviceId : JsString) :
    (s.restrict owner sc removed).activeCapabilities now sc serviceId =
      s.activeCapabilities now sc serviceId := by
  simp only [activeCapabilities, restrict]
  rw [get?_part (by simp)]

/-- The capabilities that are stored come from the reports of the scope. -/
theorem restrict_refresh (serviceId : JsString) :
    (s.refreshServiceCapabilities now sc serviceId).restrict owner sc removed =
      (s.restrict owner sc removed).refreshServiceCapabilities now sc serviceId := by
  have hservice : (s.restrict owner sc removed).services.get? (serviceKey sc serviceId) =
      s.services.get? (serviceKey sc serviceId) := get?_part (by simp)
  have hreports : (s.restrict owner sc removed).agentCapabilityReports.get? (serviceKey sc serviceId) =
      s.agentCapabilityReports.get? (serviceKey sc serviceId) := get?_part (by simp)
  simp only [refreshServiceCapabilities, hservice, hreports, activeCapabilities_restrict]
  rcases s.services.get? (serviceKey sc serviceId) with - | service
  · rfl
  rcases s.agentCapabilityReports.get? (serviceKey sc serviceId) with - | reports
  · simp only [restrict]
    rw [part_set_own (by simp)]
  · simp only [restrict]
    rw [part_set_own (by simp), part_set_own (by simp)]

theorem restrict_recordHealth (serviceId : JsString) (f : NativeIngestHealth → NativeIngestHealth) :
    (s.recordHealth sc serviceId f).restrict owner sc removed =
      (s.restrict owner sc removed).recordHealth sc serviceId f := by
  simp only [restrict, recordHealth, healthOf]
  rw [part_set_own (by simp), get?_part (by simp)]

/-! ### Shared methods, in another scope -/

/-- Another scope draws its versions elsewhere. -/
theorem part_bump_foreign (hne : scope ≠ sc) (l : List JsString) (m : JsMap JsString ℕ) :
    part (inScope sc) (l.foldl (bumpNativeAssignmentVersion scope) m) = part (inScope sc) m := by
  induction l generalizing m with
  | nil => rfl
  | cons a l ih =>
    rw [List.foldl_cons, ih, bumpNativeAssignmentVersion, part_set_foreign (by simpa using hne)]

/-- The version of another scope's service is outside the part. -/
theorem restrict_incrementServiceVersion_foreign (hne : scope ≠ sc) (serviceId : JsString) :
    (s.incrementServiceVersion serviceId scope).restrict owner sc removed =
      s.restrict owner sc removed := by
  simp only [restrict, incrementServiceVersion, part_bump_foreign hne]
  rw [part_set_foreign (by simpa using hne)]

theorem restrict_appendEvent_foreign {e : ProbeEvent} (h : owner e.probeId ≠ sc) :
    (s.appendEvent cfg e).restrict owner sc removed = s.restrict owner sc removed := by
  simp only [restrict, appendEvent]
  rw [part_set_foreign (ownId_of_ne h)]

theorem restrict_setStatus_foreign {id : JsString} (h : owner id ≠ sc) (status : ProbeStatus) :
    ({ s with statuses := s.statuses.set id status }).restrict owner sc removed =
      s.restrict owner sc removed := by
  simp only [restrict]
  rw [part_set_foreign (ownId_of_ne h)]

/-! ### Expiry -/

/-- An expired probe stays with its owner. -/
theorem Placed.expireProbe (h : Placed owner s) {e : JsString × StoredProbe}
    (he : e.1 = e.2.probe.id ∧ owner e.1 = e.2.scope) : Placed owner (s.expireProbe cfg now e) where
  probes := by
    rw [probes_expireProbe]
    split
    · -- the expired probe has the place of the old one
      exact h.probes.set he
    · exact h.probes
  services := by
    unfold BrokerState.expireProbe
    split <;> exact h.services
  sourceMapSets := by
    unfold BrokerState.expireProbe
    split <;> exact h.sourceMapSets
  nativeInstances := by
    unfold BrokerState.expireProbe
    split <;> exact h.nativeInstances

/-- A probe of the scope expires in the restriction as it does in the state. -/
theorem restrict_expireProbe (h : Placed owner s) {e : JsString × StoredProbe}
    (he : e.1 = e.2.probe.id ∧ owner e.1 = e.2.scope) (hown : owner e.1 = sc) :
    (s.expireProbe cfg now e).restrict owner sc removed =
      (s.restrict owner sc removed).expireProbe cfg now e := by
  have hscope : e.2.scope = sc := he.2.symm.trans hown
  have hget : ∀ u : BrokerState, (u.restrict owner sc removed).statuses.get? e.1 = u.statuses.get? e.1 :=
    fun u => get?_part (ownId_of hown)
  simp only [expireProbe, hscope, ← he.1]
  split
  · -- the probe, the version and the event are all the scope's
    have hset : ({ s with probes := s.probes.set e.1 e.2.markExpired }).restrict owner sc removed =
        { s.restrict owner sc removed with
          probes := (s.restrict owner sc removed).probes.set e.1 e.2.markExpired } := by
      simp only [restrict]
      rw [part_set_own (ownId_of hown)]
    have hplaced : Placed owner { s with probes := s.probes.set e.1 e.2.markExpired } :=
      { h with probes := h.probes.set he }
    have hincrement := @restrict_incrementServiceVersion sc owner removed _ hplaced e.2.probe.serviceId
    rw [hset] at hincrement
    rw [restrict_appendEvent hown, restrict_setStatus hown, hincrement]
    simp only [expiredStatus]
    -- the status reads the event that was appended before
    rw [← hincrement, hget]
  · rfl

/-- The expiry of another scope's probe is not seen. -/
theorem restrict_expireProbe_foreign {e : JsString × StoredProbe}
    (he : e.1 = e.2.probe.id ∧ owner e.1 = e.2.scope) (hother : owner e.1 ≠ sc) :
    (s.expireProbe cfg now e).restrict owner sc removed = s.restrict owner sc removed := by
  have hne : e.2.scope ≠ sc := fun heq => hother (he.2.trans heq)
  simp only [expireProbe, ← he.1]
  split
  · -- none of the four writes is in the part
    rw [restrict_appendEvent_foreign hother, restrict_setStatus_foreign hother,
      restrict_incrementServiceVersion_foreign hne]
    simp only [restrict]
    rw [part_set_foreign (ownId_of_ne hother)]
  · rfl

/-- The probes of other scopes do not matter to the expiry of a scope's. -/
theorem restrict_expireDueProbes (h : Placed owner s) (cfg : Config) (now : ℕ) :
    (s.expireDueProbes cfg now).restrict owner sc removed =
      (s.restrict owner sc removed).expireDueProbes cfg now := by
  suffices ∀ (l : List (JsString × StoredProbe)) (t : BrokerState), Placed owner t →
      (∀ e ∈ l, e.1 = e.2.probe.id ∧ owner e.1 = e.2.scope) →
      (l.foldl (expireProbe cfg now) t).restrict owner sc removed =
        (l.filter fun e => ownId owner sc e.1).foldl (expireProbe cfg now)
          (t.restrict owner sc removed) from
    this _ s h fun e he => h.probes e.1 e.2 (JsMap.get?_eq_some_iff.mpr he)
  intro l
  induction l with
  | nil => exact fun _ _ _ => rfl
  | cons e l ih =>
    intro t ht hl
    have he := hl e List.mem_cons_self
    rw [List.foldl_cons, ih _ (ht.expireProbe he) fun e' he' => hl e' (List.mem_cons_of_mem _ he')]
    by_cases hown : owner e.1 = sc
    · rw [List.filter_cons, if_pos (ownId_of hown), List.foldl_cons, restrict_expireProbe ht he hown]
    · rw [List.filter_cons, ownId_of_ne hown, if_neg Bool.false_ne_true, restrict_expireProbe_foreign he hown]

end BrokerState
