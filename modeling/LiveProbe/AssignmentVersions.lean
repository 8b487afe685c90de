/-
LiveProbe/AssignmentVersions.lean

The version of a native agent's assignments determines the assignments.

An agent asks with the version it holds and gets nothing when it is the present
one, so whatever changes its assignments has to raise their version.  They are
made of three things: the agent's instances, the live probes of their services
and the statuses that end an assignment.  `assignments_change` goes through the
elementary changes: where any of the three changes for an agent, that agent's
version rises.

It holds of agents and instances whose identifiers hold no NUL.  With a NUL two
agents can share the key of an instance or of a status, and what one agent
reports then changes the assignments of the other under the same version.
-/
import LiveProbe.View
import LiveProbe.NativeInstances
import LiveProbe.NativeVerdict
import LiveProbe.Listening

open JsString Broker Protocol BrokerState

namespace JsMap

variable {κ α β : Type*} [DecidableEq κ]

/-- An entry that is replaced by one that looks the same leaves the kept values
looking as they did. -/
theorem map_filter_values_set {q : α → Bool} {f : α → β} {m : JsMap κ α} {k : κ} {v old : α}
    (hold : m.get? k = some old) (hq : q v = q old) (hf : f v = f old) :
    ((m.set k v).values.filter q).map f = (m.values.filter q).map f := by
  have hmem := get?_eq_some_iff.mp hold
  rw [values, entries_set_of_mem (mem_keys_of_mem hmem), values]
  simp only [List.filter_map, List.map_map]
  have hsame : ∀ e ∈ m.entries, ∀ e', e' = (if e.1 = k then (k, v) else e) →
      q e'.2 = q e.2 ∧ f e'.2 = f e.2 := by
    rintro e he e' rfl
    split
    · next hk =>
      have hv : e.2 = old := value_unique (k := k) (hk ▸ he) hmem
      rw [hv]
      exact ⟨hq, hf⟩
    · exact ⟨rfl, rfl⟩
  have hfilter : m.entries.filter (q ∘ Prod.snd ∘ fun e => if e.1 = k then (k, v) else e) =
      m.entries.filter (q ∘ Prod.snd) := List.filter_congr fun e he => (hsame e he _ rfl).1
  rw [hfilter]
  exact List.map_congr_left fun e he => (hsame e (List.mem_of_mem_filter he) _ rfl).2

end JsMap

namespace BrokerState

variable {cfg : Config} {now : ℕ} {scope sc : ResourceScope} {agentId : JsString}
  {allowed : List JsString} {r : Request} {s t : BrokerState} {L : Limits}

/-! ### What the assignments are made of -/

/-- What an assignment tells of an instance. -/
def assignedTo (i : NativeInstance) : JsString × JsString × JsString :=
  (i.instanceId, i.serviceId, i.buildId)

/-- The same instances with the same live probes and the same ends have the
same assignments. -/
theorem desiredAssignments_congr
    (hi : (t.agentInstances sc agentId).map (fun i => assignedTo i.toNativeInstance) =
      (s.agentInstances sc agentId).map fun i => assignedTo i.toNativeInstance)
    (hp : ∀ i ∈ s.agentInstances sc agentId,
      t.activeProbes sc i.serviceId = s.activeProbes sc i.serviceId)
    (he : ∀ i ∈ s.agentInstances sc agentId, ∀ probe ∈ s.activeProbes sc i.serviceId,
      t.nativeTerminal probe i agentId sc = s.nativeTerminal probe i agentId sc) :
    t.desiredAssignments cfg sc agentId allowed = s.desiredAssignments cfg sc agentId allowed := by
  have hform : ∀ u : BrokerState, u.desiredAssignments cfg sc agentId allowed =
      ((((u.agentInstances sc agentId).map fun i => assignedTo i.toNativeInstance).filter
        fun e => allows allowed e.2.1).mergeSort fun l r => cfg.localeLe l.1 r.1).map fun e =>
        { instanceId := e.1, serviceId := e.2.1, buildId := e.2.2
          probes := (u.activeProbes sc e.2.1).filter fun probe =>
            !(u.nativeStatuses.get? (nativeStatusKey sc probe.id probe.version agentId e.1 e.2.2)).any
              fun status => nativeStatusEndsAssignment status.status } := by
    intro u
    rw [desiredAssignments, List.filter_map, ← List.map_mergeSort
      (r := fun l r : NativeInstanceRecord => cfg.localeLe l.instanceId r.instanceId)
      (f := fun i : NativeInstanceRecord => assignedTo i.toNativeInstance) fun _ _ _ _ => rfl, List.map_map]
    rfl
  rw [hform, hform, hi]
  refine List.map_congr_left fun e hmem => ?_
  obtain ⟨i, hmem', rfl⟩ := List.mem_map.mp (List.mem_of_mem_filter (List.mem_mergeSort.mp hmem))
  have hprobes := hp i hmem'
  simp only [assignedTo, hprobes]
  congr 1
  exact List.filter_congr fun probe hprobe => congrArg (! ·) (he i hmem' probe hprobe)

theorem desiredAssignments_of_eq (hp : t.probes = s.probes) (hi : t.nativeInstances = s.nativeInstances)
    (hn : t.nativeStatuses = s.nativeStatuses) :
    t.desiredAssignments cfg sc agentId allowed = s.desiredAssignments cfg sc agentId allowed := by
  refine desiredAssignments_congr ?_ (fun i _ => ?_) fun i _ probe _ => ?_
  · rw [agentInstances, hi, agentInstances]
  · rw [activeProbes, hp, activeProbes]
  · rw [nativeTerminal, hn, nativeTerminal]

/-! ### Versions -/

/-- A bump raises the version once for each time the agent is named. -/
theorem get?_foldl_bump (l : List JsString) (m : JsMap JsString ℕ) (a : JsString) :
    ((l.foldl (bumpNativeAssignmentVersion scope) m).get? (nativeAgentKey sc a)).getD 0 =
      (m.get? (nativeAgentKey sc a)).getD 0 + if scope = sc then l.count a else 0 := by
  induction l generalizing m with
  | nil => simp
  | cons b l ih =>
    rw [List.foldl_cons, ih, bumpNativeAssignmentVersion, JsMap.get?_set]
    by_cases hscope : scope = sc
    · subst hscope
      rw [if_pos rfl, if_pos rfl, List.count_cons]
      by_cases hb : b = a
      · subst hb
        rw [if_pos rfl]
        simp only [BEq.rfl, if_true, Option.getD_some]
        omega
      · have hkey : nativeAgentKey scope a ≠ nativeAgentKey scope b :=
          fun h => hb (nativeAgentKey_inj.mp h).2.symm
        rw [if_neg hkey, if_neg (by simpa using hb)]
        rfl
    · have hkey : nativeAgentKey sc a ≠ nativeAgentKey scope b :=
        fun h => hscope (nativeAgentKey_inj.mp h).1.symm
      rw [if_neg hkey, if_neg hscope, if_neg hscope]

/-- A raise of a service's version raises the versions of the agents that run it. -/
theorem assignmentVersion_increment (serviceId : JsString) (s : BrokerState) :
    (s.incrementServiceVersion serviceId scope).assignmentVersion sc agentId =
      s.assignmentVersion sc agentId +
        if scope = sc then (s.serviceAgents scope serviceId).count agentId else 0 :=
  get?_foldl_bump _ _ _

theorem mem_serviceAgents {i : NativeInstanceRecord} (h : i ∈ s.agentInstances sc agentId) :
    agentId ∈ s.serviceAgents sc i.serviceId := by
  obtain ⟨hmem, hq⟩ := List.mem_filter.mp h
  rw [Bool.and_eq_true, decide_eq_true_eq, decide_eq_true_eq] at hq
  refine List.mem_map.mpr ⟨i, List.mem_filter.mpr ⟨hmem, ?_⟩, hq.2⟩
  rw [Bool.and_eq_true, decide_eq_true_eq, decide_eq_true_eq]
  exact ⟨hq.1, rfl⟩

/-- The version and the assignments of an agent, as functions of the state. -/
abbrev AssignmentsAdvance (cfg : Config) (sc : ResourceScope) (agentId : JsString)
    (allowed : List JsString) : BrokerState → BrokerState → Prop :=
  Advances (fun s => s.assignmentVersion sc agentId) fun s => s.desiredAssignments cfg sc agentId allowed

/-- A change of the probes of one service, made with a raise of its version,
advances the assignments of every agent. -/
theorem advances_of_raise {serviceId : JsString} (hi : t.nativeInstances = s.nativeInstances)
    (hn : t.nativeStatuses = s.nativeStatuses)
    (hversion : t.assignmentVersion sc agentId =
      (s.incrementServiceVersion serviceId scope).assignmentVersion sc agentId)
    (hother : ∀ sv, ¬(scope = sc ∧ serviceId = sv) →
      t.probes.values.filter (StoredProbe.liveIn sc sv) = s.probes.values.filter (StoredProbe.liveIn sc sv)) :
    AssignmentsAdvance cfg sc agentId allowed s t := by
  rw [assignmentVersion_increment] at hversion
  by_cases hruns : scope = sc ∧ agentId ∈ s.serviceAgents scope serviceId
  · have hcount := List.count_pos_iff.mpr hruns.2
    rw [if_pos hruns.1] at hversion
    exact .of_lt (by omega)
  · refine ⟨by omega, fun _ => (desiredAssignments_congr ?_ (fun i hmem => ?_) fun i _ probe _ => ?_).symm⟩
    · rw [agentInstances, hi, agentInstances]
    · have hne : ¬(scope = sc ∧ serviceId = i.serviceId) := by
        rintro ⟨rfl, rfl⟩
        exact hruns ⟨rfl, mem_serviceAgents hmem⟩
      exact congrArg (List.map (·.probe)) (hother i.serviceId hne)
    · rw [nativeTerminal, hn, nativeTerminal]

/-! ### Expiry -/

theorem live_expireProbe {e : JsString × StoredProbe} (he : e ∈ s.probes.entries)
    {sv : JsString} (hne : ¬(e.2.scope = sc ∧ e.2.probe.serviceId = sv)) :
    (s.probes.set e.1 e.2.markExpired).values.filter (StoredProbe.liveIn sc sv) =
      s.probes.values.filter (StoredProbe.liveIn sc sv) := by
  have hlive : ∀ p : StoredProbe, p.scope = e.2.scope → p.probe = e.2.probe → p.liveIn sc sv = false := by
    intro p hs hp
    rw [StoredProbe.liveIn, hs, hp]
    rcases not_and_or.mp hne with h | h <;> simp [h]
  refine JsMap.filter_values_set (hlive _ rfl rfl) fun w hw => ?_
  rw [JsMap.get?_eq_some_iff.mpr he] at hw
  obtain rfl := Option.some.inj hw
  exact hlive _ rfl rfl

theorem advances_expireDueProbes (cfg : Config) (now : ℕ) (s : BrokerState) :
    AssignmentsAdvance cfg sc agentId allowed s (s.expireDueProbes cfg now) :=
  expireDueProbes_induction (.refl s) fun u e hu he hdue => by
    refine hu.trans ?_
    rw [expireProbe, if_pos hdue]
    exact advances_of_raise rfl rfl rfl fun sv hne => live_expireProbe he hne

/-! ### Replaced instances -/

/-- Instances stored under the keys of another agent leave an agent's as they are. -/
theorem filter_storeInstances_other {q : NativeInstanceRecord → Bool} {agent : NativeAgentRecord}
    {instances : List NativeInstance} {m : JsMap JsString NativeInstanceRecord}
    (hnew : ∀ i, q (instanceRecord scope agent agentId i) = false)
    (hold : ∀ x w, m.get? (nativeInstanceKey scope agentId x) = some w → q w = false) :
    (storeInstances scope agent agentId instances m).values.filter q = m.values.filter q := by
  induction instances generalizing m with
  | nil => rfl
  | cons i instances ih =>
    refine (ih fun x w hw => ?_).trans (JsMap.filter_values_set (hnew i) fun w hw => hold i.instanceId w hw)
    rw [JsMap.get?_set] at hw
    split at hw
    · rw [← Option.some.inj hw]
      exact hnew i
    · exact hold x w hw

/-- Instances stored over ones that look the same leave the assignments' as they are. -/
theorem map_storeInstances_same {agent : NativeAgentRecord} {instances : List NativeInstance}
    {m : JsMap JsString NativeInstanceRecord}
    (h : ∀ i ∈ instances, ∃ j, m.get? (nativeInstanceKey scope agentId i.instanceId) = some j ∧
      j.scope = scope ∧ j.agentId = agentId ∧ assignedTo j.toNativeInstance = assignedTo i) :
    ((storeInstances scope agent agentId instances m).values.filter fun i =>
        i.scope = scope && i.agentId = agentId).map (fun i => assignedTo i.toNativeInstance) =
      (m.values.filter fun i => i.scope = scope && i.agentId = agentId).map
        fun i => assignedTo i.toNativeInstance := by
  induction instances generalizing m with
  | nil => rfl
  | cons i instances ih =>
    obtain ⟨old, hget, hscope, hagent, hsame⟩ := h i List.mem_cons_self
    refine (ih fun i' hi' => ?_).trans (JsMap.map_filter_values_set hget ?_ hsame.symm)
    · obtain ⟨j, hj, hj'⟩ := h i' (List.mem_cons_of_mem i hi')
      rw [JsMap.get?_set]
      split
      · next hk =>
        rw [hk, hget] at hj
        obtain rfl := Option.some.inj hj
        exact ⟨_, rfl, rfl, rfl, hsame.symm.trans hj'.2.2⟩
      · exact ⟨j, hj, hj'⟩
    · rw [hscope, hagent]
      rfl

theorem filter_dropInstances {q : NativeInstanceRecord → Bool} {a : JsString} {ids : List JsString}
    (h : ∀ i ∈ s.nativeInstances.values, i.scope = scope → i.agentId = a → i.instanceId ∉ ids → q i = false) :
    (s.dropInstances scope a ids).nativeInstances.values.filter q = s.nativeInstances.values.filter q := by
  simp only [dropInstances, JsMap.values, JsMap.entries_filter, List.filter_map, List.filter_filter]
  congr 1
  refine List.filter_congr fun e he => ?_
  by_cases hq : q e.2 = true
  · rw [Function.comp_apply, hq, Bool.true_and, Bool.not_eq_true', Bool.and_eq_false_iff,
      Bool.and_eq_false_iff, decide_eq_false_iff_not, decide_eq_false_iff_not, decide_eq_false_iff_not]
    by_contra hdropped
    rw [not_or, not_or, not_not, not_not, not_not] at hdropped
    have hmem : e.2 ∈ s.nativeInstances.values := JsMap.mem_values_iff.mpr ⟨e.1, he⟩
    rw [h e.2 hmem hdropped.1.1 hdropped.1.2 hdropped.2] at hq
    cases hq
  · rw [Bool.not_eq_true] at hq
    rw [Function.comp_apply, hq]
    rfl

/-- The instances of an agent are another's business only where keys are shared. -/
theorem agentInstances_replaced_other (hr : s.nativeInstances.All (InstanceOk L)) (hL : L.plainIds)
    {a : JsString} (hne : ¬(scope = sc ∧ a = agentId)) (agent : NativeAgentRecord)
    (instances : List NativeInstance) :
    (s.replacedInstances scope agent a instances).values.filter
        (fun i => i.scope = sc && i.agentId = agentId) = s.agentInstances sc agentId := by
  have hnot : ∀ i : NativeInstanceRecord, i.scope = scope → i.agentId = a →
      (decide (i.scope = sc) && decide (i.agentId = agentId)) = false := by
    intro i hs ha
    rw [hs, ha, Bool.and_eq_false_iff, decide_eq_false_iff_not, decide_eq_false_iff_not]
    exact not_and_or.mp hne
  rw [replacedInstances, filter_storeInstances_other (fun i => hnot _ rfl rfl) fun x w hw => ?_,
    filter_dropInstances fun i _ hs ha _ => hnot i hs ha, agentInstances]
  have hget : s.nativeInstances.get? (nativeInstanceKey scope a x) = some w := by
    change (s.nativeInstances.filter _).get? _ = _ at hw
    rw [JsMap.get?_filter, Option.filter_eq_some_iff] at hw
    exact hw.1
  have hok := hr _ w hget
  obtain ⟨hs, ha, -⟩ := nativeInstanceKey_plain (hok.plain hL).1 (hok.plain hL).2 hok.key
  exact hnot w hs.symm ha.symm

/-- A report that changes no identity changes no assignment. -/
theorem assigned_replaced_same (hr : s.nativeInstances.All (InstanceOk L)) {agent : NativeAgentRecord}
    {instances : List NativeInstance}
    (hperm : ((s.agentInstances scope agentId).map fun i : NativeInstanceRecord =>
        nativeAttachmentIdentity i.toNativeInstance []).Perm
      (instances.map fun i => nativeAttachmentIdentity i agent.capabilities)) :
    ((s.replacedInstances scope agent agentId instances).values.filter fun i =>
        i.scope = scope && i.agentId = agentId).map (fun i => assignedTo i.toNativeInstance) =
      (s.agentInstances scope agentId).map fun i => assignedTo i.toNativeInstance := by
  have hassigned : ∀ (i j : NativeInstance) (c d : List JsString),
      nativeAttachmentIdentity i c = nativeAttachmentIdentity j d → assignedTo i = assignedTo j := by
    intro i j c d h
    obtain ⟨hi, hs, -, -, -, -, -, -, hb, -⟩ := AttachmentIdentity.mk.inj h
    exact Prod.ext hi (Prod.ext hs hb)
  have hkept : ∀ j ∈ s.agentInstances scope agentId, j.instanceId ∈ instances.map (·.instanceId) := by
    intro j hj
    obtain ⟨i, hi, heq⟩ := List.mem_map.mp (hperm.mem_iff.mp (List.mem_map_of_mem hj))
    exact List.mem_map.mpr ⟨i, hi, (Prod.ext_iff.mp (hassigned _ _ _ _ heq)).1⟩
  have hdrop : (s.dropInstances scope agentId (instances.map (·.instanceId))).nativeInstances =
      s.nativeInstances := by
    simp only [dropInstances]
    refine JsMap.filter_eq_self fun k i hmem => ?_
    by_cases hown : i.scope = scope ∧ i.agentId = agentId
    · have hin := hkept i (List.mem_filter.mpr ⟨JsMap.mem_values_iff.mpr ⟨k, hmem⟩, by simp [hown]⟩)
      simp [hin]
    · rcases not_and_or.mp hown with h | h <;> simp [h]
  rw [replacedInstances, hdrop, map_storeInstances_same fun i hi => ?_, agentInstances]
  obtain ⟨j, hj, heq⟩ := List.mem_map.mp (hperm.mem_iff.mpr (List.mem_map_of_mem hi))
  obtain ⟨hmem, hq⟩ := List.mem_filter.mp hj
  rw [Bool.and_eq_true, decide_eq_true_eq, decide_eq_true_eq] at hq
  obtain ⟨k, hk⟩ := JsMap.mem_values_iff.mp hmem
  have hget := JsMap.get?_eq_some_iff.mpr hk
  have hsame := hassigned _ _ _ _ heq
  have hid : j.instanceId = i.instanceId := congrArg Prod.fst hsame
  have hkey : k = nativeInstanceKey scope agentId i.instanceId := by
    rw [(hr k j hget).key, hq.1, hq.2, hid]
  exact ⟨j, hkey ▸ hget, hq.1, hq.2, hsame⟩

/-- A change of the identities raises the version of the agent they are of. -/
theorem assignmentVersion_settle (agent : NativeAgentRecord) (a : JsString) (changed : Bool) :
    (s.settleInstances now scope agent a changed).assignmentVersion sc agentId =
      s.assignmentVersion sc agentId + if changed = true ∧ scope = sc ∧ a = agentId then 1 else 0 := by
  have hversions : (s.settleInstances now scope agent a changed).nativeAssignmentVersions =
      if changed then [a].foldl (bumpNativeAssignmentVersion scope) s.nativeAssignmentVersions
      else s.nativeAssignmentVersions := rfl
  rw [assignmentVersion, hversions, assignmentVersion]
  rcases changed with - | -
  · simp
  · rw [if_pos rfl, get?_foldl_bump, List.count_singleton]
    by_cases hscope : scope = sc <;> by_cases ha : a = agentId <;> simp [hscope, ha]

theorem advances_replace (hr : Records cfg L s) (hL : L.plainIds) {a : JsString}
    {instances : List NativeInstance} {report : List JsString} {agent : NativeAgentRecord}
    (hv : (Request.replaceNativeInstances a instances report).Valid)
    (registered : s.nativeAgents.get? (nativeAgentKey scope a) = some agent)
    (checked : checkInstances (s.ownedByAnother scope a) report [] instances = .ok ()) :
    AssignmentsAdvance cfg sc agentId allowed s
      (s.replaceNativeInstances now a instances scope report).1 := by
  rw [replaceNativeInstances_settled now hr.nativeAgents hv registered checked]
  generalize hchanged : (!((s.agentInstances scope a).map fun i : NativeInstanceRecord =>
      nativeAttachmentIdentity i.toNativeInstance []).isPerm
    (instances.map fun i => nativeAttachmentIdentity i agent.capabilities)) = changed
  let t := { s with nativeInstances := s.replacedInstances scope agent a instances }
  have hversion : (t.settleInstances now scope agent a changed).assignmentVersion sc agentId =
      s.assignmentVersion sc agentId + if changed = true ∧ scope = sc ∧ a = agentId then 1 else 0 :=
    assignmentVersion_settle agent a changed
  -- an agent whose version stays has instances that look as they did
  have hassigned : ¬(changed = true ∧ scope = sc ∧ a = agentId) →
      ((t.settleInstances now scope agent a changed).agentInstances sc agentId).map
          (fun i => assignedTo i.toNativeInstance) =
        (s.agentInstances sc agentId).map fun i => assignedTo i.toNativeInstance := by
    intro hstays
    by_cases hown : scope = sc ∧ a = agentId
    · obtain ⟨rfl, rfl⟩ := hown
      have hsame : changed = false := by simpa using hstays
      rw [← hchanged, Bool.not_eq_false', List.isPerm_iff] at hsame
      exact assigned_replaced_same hr.nativeInstances hsame
    · exact congrArg (List.map _)
        (agentInstances_replaced_other hr.nativeInstances hL hown agent instances)
  refine ⟨by rw [hversion]; exact Nat.le_add_right _ _, fun heq => ?_⟩
  have hstays : ¬(changed = true ∧ scope = sc ∧ a = agentId) := by
    intro h
    rw [hversion, if_pos h] at heq
    omega
  exact (desiredAssignments_congr (hassigned hstays) (fun _ _ => rfl) fun _ _ _ _ => rfl).symm

/-! ### Native events -/

/-- A status that is recorded ends an assignment under a raised version, or
leaves the ends as they were. -/
theorem ends_recorded {key : JsString} {status : ProbeStatus}
    (hkeep : (s.nativeStatuses.get? key).any (keepsPrevious status) = false)
    (hlatch : s.latches key status = false) :
    nativeStatusEndsAssignment status.status =
      (s.nativeStatuses.get? key).any fun p => nativeStatusEndsAssignment p.status := by
  rw [latches] at hlatch
  rcases hg : s.nativeStatuses.get? key with - | previous
  · simpa [hg] using hlatch
  · rw [hg, Option.any_some, keepsPrevious, Bool.or_eq_false_iff] at hkeep
    rw [hg] at hlatch
    simp only [Option.any_some] at hlatch ⊢
    rcases hs : nativeStatusEndsAssignment status.status with - | - <;>
      rcases hp : nativeStatusEndsAssignment previous.status with - | - <;>
      simp_all

theorem advances_nativeEvent (hi : Indexed s) (hr : Records cfg L s) (hL : L.plainIds)
    {input : NativeIngestEnvelope} {i : NativeInstanceRecord} {stored : StoredProbe} {e : ProbeEvent}
    (inst : s.nativeInstances.get? (nativeInstanceKey scope input.agentId input.instanceId) = some i)
    (target : isTarget input i = true) (found : s.probes.get? e.probeId = some stored) :
    AssignmentsAdvance cfg sc agentId allowed s (s.ingestNativeEvent cfg scope input e) := by
  rcases ingestNativeEvent_eq cfg scope input s e with heq | ⟨status, -, hkeep, heq⟩
  · rw [heq]
    exact .of_eq rfl (desiredAssignments_of_eq rfl rfl rfl).symm
  obtain ⟨statuses, -, hd⟩ := deriveNativeLogicalStatus_eq e.probeId scope
    ((s.appendEvent cfg e).withNativeStatus scope input (statusKeyOf scope input e) status)
  rw [heq, hd]
  have hbump : ∀ latched : Bool,
      ((if latched then [input.agentId].foldl (bumpNativeAssignmentVersion scope) s.nativeAssignmentVersions
        else s.nativeAssignmentVersions).get? (nativeAgentKey sc agentId)).getD 0 =
      s.assignmentVersion sc agentId +
        if latched = true ∧ scope = sc ∧ input.agentId = agentId then 1 else 0 := by
    intro latched
    rcases latched with - | -
    · simp [assignmentVersion]
    · rw [if_pos rfl, get?_foldl_bump, List.count_singleton]
      by_cases hscope : scope = sc <;> by_cases ha : input.agentId = agentId <;>
        simp [hscope, ha, assignmentVersion]
  have hversion := hbump (s.latches (statusKeyOf scope input e) status)
  refine ⟨(Nat.le_add_right _ _).trans_eq hversion.symm, fun hsame => ?_⟩
  have hstays : ¬(s.latches (statusKeyOf scope input e) status = true ∧ scope = sc ∧
      input.agentId = agentId) := by
    intro h
    rw [if_pos h] at hversion
    exact absurd (hsame.trans hversion) (by omega)
  symm
  refine desiredAssignments_congr rfl (fun _ _ => rfl) fun j hj probe hprobe => ?_
  obtain ⟨hjmem, hj⟩ := List.mem_filter.mp hj
  rw [Bool.and_eq_true, decide_eq_true_eq, decide_eq_true_eq] at hj
  obtain ⟨k, hk⟩ := JsMap.mem_values_iff.mp hjmem
  have hjok := hr.nativeInstances k j (JsMap.get?_eq_some_iff.mpr hk)
  obtain ⟨p, hp, rfl⟩ := List.mem_map.mp hprobe
  obtain ⟨kp, hkp⟩ := JsMap.mem_values_iff.mp (List.mem_of_mem_filter hp)
  obtain ⟨rfl, hparsed⟩ := hi.probes kp p (JsMap.get?_eq_some_iff.mpr hkp)
  have hbuild : buildIdSchema input.buildId = some input.buildId := by
    rw [isTarget, Bool.and_eq_true, decide_eq_true_eq, decide_eq_true_eq] at target
    rw [← target.2]
    exact (hr.nativeInstances _ i inst).parts.buildId
  show ((s.nativeStatuses.set (statusKeyOf scope input e) status).get? _).any _ = _
  rw [JsMap.get?_set]
  split
  · next hkey =>
    -- the key of this instance is the one the event is recorded under
    have hplain := hjok.plain hL
    rw [hj.2] at hplain
    obtain ⟨hscope, -, -, hagent, -⟩ := nativeStatusKey_plain (probeId_of_parsed hparsed) (hi.probeId found)
      hjok.parts.buildId hbuild hplain.1 hplain.2 hkey.symm
    have hlatch : s.latches (statusKeyOf scope input e) status = false := by
      rw [← Bool.not_eq_true]
      exact fun h => hstays ⟨h, hscope, hagent⟩
    rw [nativeTerminal, hkey, Option.any_some]
    exact ends_recorded hkeep hlatch
  · rfl

/-! ### Changes -/

/-- A probe of another service that enters leaves a service's live probes. -/
theorem live_insertProbe {draws : ℕ → JsString} {id sv serviceId : JsString} {probe : ProbeDefinition}
    (drawn : s.drawProbeId draws = some id) (hid : probe.id = id) (hservice : probe.serviceId = serviceId)
    (hne : ¬(scope = sc ∧ serviceId = sv)) :
    (s.insertProbe now scope probe).probes.values.filter (StoredProbe.liveIn sc sv) =
      s.probes.values.filter (StoredProbe.liveIn sc sv) := by
  refine live_insert (hid ▸ drawProbeId_fresh drawn) ?_
  simp only [StoredProbe.liveIn, hservice]
  rcases not_and_or.mp hne with h | h <;> simp [h]

/-- **Every change advances the assignments of every agent.** -/
theorem assignments_change (hi : Indexed s) (hr : Records cfg L s) (hL : L.plainIds) (hv : r.Valid)
    (hc : Change cfg now scope r s t) : AssignmentsAdvance cfg sc agentId allowed s t := by
  have hsame : ∀ {u : BrokerState}, u.probes = s.probes → u.nativeInstances = s.nativeInstances →
      u.nativeStatuses = s.nativeStatuses → s.assignmentVersion sc agentId ≤ u.assignmentVersion sc agentId →
      AssignmentsAdvance cfg sc agentId allowed s u :=
    fun hp hinst hn hle => ⟨hle, fun _ => (desiredAssignments_of_eq hp hinst hn).symm⟩
  have hraise : ∀ serviceId, s.assignmentVersion sc agentId ≤
      (s.incrementServiceVersion serviceId scope).assignmentVersion sc agentId := by
    intro serviceId
    rw [assignmentVersion_increment]
    exact Nat.le_add_right _ _
  cases hc with
  | expire => exact advances_expireDueProbes cfg now s
  | create draws input compiled id probe isCreate compiles drawn parsed =>
    subst isCreate
    obtain ⟨hid, -, hsid, -⟩ := newDefinition_parsed parsed
    obtain ⟨ce, body, -, -, hcomp⟩ := compileProbeInput_eq_ok compiles
    have hservice : probe.serviceId = input.serviceId := by
      rw [hcomp, serviceId_of_createInput hv] at hsid
      exact (Option.some.inj hsid).symm
    exact advances_of_raise rfl rfl rfl fun sv hne => live_insertProbe drawn hid hservice hne
  | deleteExpired id stored isDelete found own expired =>
    refine ⟨le_rfl, fun _ => ?_⟩
    symm
    refine desiredAssignments_congr rfl (fun i _ => ?_) fun _ _ _ _ => rfl
    refine congrArg (List.map (·.probe)) (live_delete found ?_)
    rw [StoredProbe.liveIn, expired, Bool.not_true, Bool.and_false]
  | deleteLive id stored isDelete found own live =>
    refine advances_of_raise rfl rfl rfl fun sv hne => live_delete found ?_
    rw [StoredProbe.liveIn, own]
    rcases not_and_or.mp hne with h | h <;> simp [h]
  | replace a instances report agent isReplace registered checked =>
    subst isReplace
    exact advances_replace hr hL hv registered checked
  | nativeEvent input i stored e isIngest mem inst target found checked =>
    exact advances_nativeEvent hi hr hL inst target found
  | failCreate draws input => exact hsame rfl rfl rfl (hraise _)
  | complete serviceId commitSha uploaderId isComplete marked =>
    rw [dropSourceMaps_eq, marked]
    refine hsame rfl rfl rfl ?_
    exact hraise serviceId
  | event input e =>
    obtain ⟨_, -, heq⟩ := ingestEvent_eq cfg s e
    rw [heq]
    exact hsame rfl rfl rfl le_rfl
  | register input record isRegister parsed =>
    rw [registerNativeAgent_eq parsed]
    refine hsame rfl rfl rfl ?_
    show (s.nativeAssignmentVersions.get? (nativeAgentKey sc agentId)).getD 0 ≤
      ((if s.nativeAssignmentVersions.has (nativeAgentKey scope input.agentId) then
        s.nativeAssignmentVersions
      else s.nativeAssignmentVersions.set (nativeAgentKey scope input.agentId) 0).get?
        (nativeAgentKey sc agentId)).getD 0
    split
    · exact le_rfl
    · next hnew =>
      rw [Bool.not_eq_true, JsMap.has_eq_false_iff] at hnew
      rw [JsMap.get?_set]
      split
      · next hkey =>
        rw [hkey, hnew]
        exact le_rfl
      · exact le_rfl
  | refresh serviceId =>
    rcases refreshServiceCapabilities_eq now scope serviceId s with heq | ⟨_, _, -, -, heq⟩
    · rw [heq]
      exact .refl s
    · rw [heq]
      exact hsame rfl rfl rfl le_rfl
  | claim serviceId commitSha uploaderId =>
    rcases clearForeignMaps_eq now (sourceMapKey scope serviceId commitSha) uploaderId s with heq | ⟨_, -, heq⟩
    · rw [heq]
      exact hsame rfl rfl rfl le_rfl
    · rw [heq]
      exact hsame rfl rfl rfl le_rfl
  | touchNative input =>
    rcases touchNativeService_eq now scope input s with heq | ⟨_, -, heq⟩
    · rw [heq]
      exact .refl s
    · rw [heq]
      exact hsame rfl rfl rfl le_rfl
  | _ => exact hsame rfl rfl rfl le_rfl

theorem assignments_handle (hi : Indexed s) (hr : Records cfg L s) (hL : L.plainIds) (hv : r.Valid)
    (hadmits : L.Admits now scope r) :
    AssignmentsAdvance cfg sc agentId allowed s (s.handle cfg now scope r).1 := by
  have hc := handle_changes cfg now scope r s
  generalize (s.handle cfg now scope r).1 = t at hc ⊢
  suffices Indexed t ∧ Records cfg L t ∧ AssignmentsAdvance cfg sc agentId allowed s t from this.2.2
  induction hc with
  | refl => exact ⟨hi, hr, .refl s⟩
  | tail _ hc ih =>
    obtain ⟨hi, hr, ha⟩ := ih
    exact ⟨hi.change hv hc, hr.change hi hv hadmits hc, ha.trans (assignments_change hi hr hL hv hc)⟩

/-- An answer is made of the state the expiry leaves. -/
theorem nativeAssignments_eq_ok {since : ℤ} {answer : NativeAssignments}
    (h : (s.nativeAssignments cfg now agentId since sc allowed).2 = .ok answer) :
    (s.nativeAssignments cfg now agentId since sc allowed).1 = s.expireDueProbes cfg now ∧
      answer.version = (s.expireDueProbes cfg now).assignmentVersion sc agentId ∧
      answer.assignments = if since = answer.version then []
        else (s.expireDueProbes cfg now).desiredAssignments cfg sc agentId allowed := by
  simp only [nativeAssignments] at h ⊢
  split at h
  · next hreg =>
    obtain rfl := Except.ok.inj h
    rw [if_pos hreg]
    exact ⟨rfl, rfl, rfl⟩
  · cases h

end BrokerState

/-! ### Runs -/

namespace QueueTask

variable {cfg : Config} {scope : ResourceScope} {agentId : JsString} {allowed : List JsString}

/-- A task of a broker whose native identifiers hold no NUL: a sweep, or a
request that has passed the schemas of its route. -/
def Plain (_ : BrokerState) (a : ℕ × QueueTask) : Prop :=
  ∀ scope r, a.2 = .request scope r → r.Valid ∧ Limits.plain.Admits a.1 scope r

/-- One task keeps the records and advances the assignments of every agent. -/
theorem assignments_next (cfg : Config) (scope : ResourceScope) (agentId : JsString)
    (allowed : List JsString) {s : BrokerState} {a : ℕ × QueueTask} (hi : Indexed s) (hr : Records cfg .plain s)
    (h : Plain s a) : Indexed (next cfg s a) ∧ Records cfg .plain (next cfg s a) ∧
      AssignmentsAdvance cfg scope agentId allowed s (next cfg s a) := by
  obtain ⟨now, task⟩ := a
  cases task with
  | sweep =>
    exact ⟨hi.expireDueProbes, hr.expireDueProbes hi trivial, advances_expireDueProbes cfg now s⟩
  | request scope' r =>
    obtain ⟨hv, hadmits⟩ := h scope' r rfl
    exact ⟨hi.handle hv, hr.handle hi hv hadmits, assignments_handle hi hr trivial hv hadmits⟩

theorem assignments_foldl {l : List (ℕ × QueueTask)} {s : BrokerState} (hi : Indexed s)
    (hr : Records cfg .plain s) (hl : AllOk (next cfg) Plain s l) :
    AssignmentsAdvance cfg scope agentId allowed s (l.foldl (next cfg) s) := by
  induction l generalizing s with
  | nil => exact .refl s
  | cons a l ih =>
    obtain ⟨hi', hr', ha⟩ := assignments_next cfg scope agentId allowed hi hr hl.1
    exact ha.trans (ih hi' hr' hl.2)

end QueueTask

/-! ### An agent that asks twice -/

namespace Sample

/-- The agent registers, reports an instance, and a counter is created for it. -/
def beforePolls : List (ℕ × QueueTask) :=
  [(0, .request scope (.registerNativeAgent (registration agent))),
    (0, .request scope (.replaceNativeInstances agent [nativeInstance instanceA build] [js "*"])),
    (1, .request scope (.createProbe (draw '1') (counter 1)))]

def beforePoll : BrokerState := beforePolls.foldl (QueueTask.next config) {}

/-- The answer to an agent that holds nothing. -/
def firstAnswer : NativeAssignments :=
  match (beforePoll.nativeAssignments config 2 agent (-1) scope [js "*"]).2 with
  | .ok answer => answer
  | .error _ => ⟨0, []⟩

theorem beforePoll_reached : Reached (QueueTask.next config) QueueTask.Plain {} beforePoll := by
  have hschemas : Protocol.nativeAgentRegistrationSchema (registration agent) = some (registration agent) ∧
      Protocol.agentIdSchema agent = some agent ∧
      Protocol.nativeInstanceSetSchema [nativeInstance instanceA build] =
        some [nativeInstance instanceA build] := by decide
  have hnul : nul ∉ agent ∧ nul ∉ instanceA := by decide
  refine Reached.foldl .init ⟨fun sc r hr => ?_, fun sc r hr => ?_, fun sc r hr => ?_, trivial⟩
  · obtain ⟨rfl, rfl⟩ := QueueTask.request.inj hr
    refine ⟨hschemas.1, Limits.plain_admits (fun input h => ?_) (fun _ _ _ h => by cases h)⟩
    rw [← Request.registerNativeAgent.inj h]
    exact hnul.1
  · obtain ⟨rfl, rfl⟩ := QueueTask.request.inj hr
    refine ⟨hschemas.2, Limits.plain_admits (fun _ h => by cases h) (fun _ _ _ h i hi => ?_)⟩
    rw [← (Request.replaceNativeInstances.inj h).2.1, List.mem_singleton] at hi
    rw [hi]
    exact hnul.2
  · obtain ⟨rfl, rfl⟩ := QueueTask.request.inj hr
    exact ⟨counter_valid 1 (by simp), Limits.plain_admits (fun _ h => by cases h) (fun _ _ _ h => by cases h)⟩

end Sample
