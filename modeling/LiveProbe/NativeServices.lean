/-
LiveProbe/NativeServices.lean

What the record of a service says of its native instances.

A replacement of instances rebuilds the records of the native services of its
scope, a native batch adds the status of its agent, and the requests of managed
agents write records of their own.  While no managed agent speaks for a service
that has native instances, the record says how many there are and of which
builds (`InStep`).  The status of the agent is lost with the next
replacement, and the capabilities that are listed are those of managed agents
(`ShowsNative`).
-/
import LiveProbe.NativeInstances
import LiveProbe.History

open JsString Schema Broker Protocol BrokerState

namespace BrokerState

variable {cfg : Config} {L : Limits} {now : ℕ} {scope : ResourceScope} {r : Request}
  {s t : BrokerState}

/-- The native instances of a service, in the order of the map. -/
def serviceInstances (s : BrokerState) (scope : ResourceScope) (serviceId : JsString) :
    List NativeInstanceRecord :=
  (s.nativeInstances.values.filter fun i => i.scope = scope).filter fun i => i.serviceId = serviceId

/-- The builds of some instances, as a record lists them. -/
def buildIdsOf (instances : List NativeInstanceRecord) : List JsString :=
  sortStrings (instances.map (·.buildId)).eraseDups

/-! ### Rebuilding -/

/-- The group of a service holds its instances. -/
theorem get?_groupByService (l : List NativeInstanceRecord) (serviceId : JsString) :
    (groupByService l).get? serviceId =
      if l.filter (fun i => i.serviceId = serviceId) = [] then none
      else some (l.filter fun i => i.serviceId = serviceId) := by
  induction l using List.reverseRecOn generalizing serviceId with
  | nil => rfl
  | append_singleton l i ih =>
    have hstep : groupByService (l ++ [i]) = (groupByService l).set i.serviceId
        (((groupByService l).get? i.serviceId).getD [] ++ [i]) := by
      rw [groupByService, List.foldl_append]
      rfl
    rw [hstep, JsMap.get?_set, List.filter_append]
    by_cases hid : serviceId = i.serviceId
    · subst hid
      have hyes : [i].filter (fun j => j.serviceId = i.serviceId) = [i] :=
        List.filter_cons_of_pos (decide_eq_true rfl)
      have hne : l.filter (fun j => j.serviceId = i.serviceId) ++ [i] ≠ [] :=
        List.append_ne_nil_of_right_ne_nil _ (List.cons_ne_nil i [])
      rw [if_pos rfl, ih, hyes, if_neg hne]
      split
      · next h => rw [h]; rfl
      · rfl
    · have hno : [i].filter (fun i => i.serviceId = serviceId) = [] :=
        List.filter_cons_of_neg (by simpa using Ne.symm hid)
      rw [if_neg hid, ih, hno, List.append_nil]

/-- What a record says of native instances. -/
structure NativePart where
  backend : Option RuntimeBackend
  instanceCount : Option ℕ
  buildIds : Option (List JsString)
  agentStatus : Option AgentStatus

def nativePart (r : ServiceRecord) : NativePart :=
  ⟨r.backend, r.instanceCount, r.buildIds, r.agentStatus⟩

/-- The part of a record that a rebuild writes, with the status it has since. -/
def partOf (instances : List NativeInstanceRecord) (agentStatus : Option AgentStatus) : NativePart :=
  ⟨some .nativeEbpf, some instances.length, some (buildIdsOf instances), agentStatus⟩

/-- What the record of a service says of native instances, if there is one. -/
def partAt (s : BrokerState) (scope : ResourceScope) (serviceId : JsString) : Option NativePart :=
  (s.services.get? (serviceKey scope serviceId)).map nativePart

theorem exists_nativeServiceRecord (scope : ResourceScope) (serviceId : JsString)
    {group : List NativeInstanceRecord} (h : group ≠ []) :
    ∃ record, nativeServiceRecord scope serviceId group = some record ∧
      nativePart record = partOf group none := by
  obtain ⟨i, rest, rfl⟩ := List.exists_cons_of_ne_nil h
  exact ⟨_, rfl, rfl⟩

/-- The loop that writes the records of the groups. -/
def writeGroups (scope : ResourceScope) (groups : List (JsString × List NativeInstanceRecord))
    (services : JsMap JsString ServiceRecord) : JsMap JsString ServiceRecord :=
  groups.foldl (fun services e =>
    match nativeServiceRecord scope e.1 e.2 with
    | none => services
    | some record => services.set (serviceKey scope e.1) record) services

theorem get?_writeGroups_of_notMem {groups : List (JsString × List NativeInstanceRecord)}
    {services : JsMap JsString ServiceRecord} {key : JsString}
    (h : ∀ e ∈ groups, key ≠ serviceKey scope e.1) :
    (writeGroups scope groups services).get? key = services.get? key := by
  induction groups generalizing services with
  | nil => rfl
  | cons e groups ih =>
    have hstep : ∀ m : JsMap JsString ServiceRecord, (writeGroups scope groups m).get? key = m.get? key :=
      fun m => ih fun e' he' => h e' (List.mem_cons_of_mem _ he')
    rw [writeGroups, List.foldl_cons]
    split
    · exact hstep services
    · exact (hstep _).trans (JsMap.get?_set_of_ne (h e List.mem_cons_self) _)

/-- A group writes the record of its service. -/
theorem get?_writeGroups_of_mem {groups : List (JsString × List NativeInstanceRecord)}
    (hnd : (groups.map Prod.fst).Nodup) {services : JsMap JsString ServiceRecord}
    {serviceId : JsString} {group : List NativeInstanceRecord} (hmem : (serviceId, group) ∈ groups)
    {record : ServiceRecord} (hrecord : nativeServiceRecord scope serviceId group = some record) :
    (writeGroups scope groups services).get? (serviceKey scope serviceId) = some record := by
  induction groups generalizing services with
  | nil => cases hmem
  | cons e groups ih =>
    rw [List.map_cons, List.nodup_cons] at hnd
    rw [writeGroups, List.foldl_cons]
    rcases List.mem_cons.mp hmem with rfl | hmem
    · rw [hrecord]
      refine (get?_writeGroups_of_notMem fun e he heq => hnd.1 ?_).trans (JsMap.get?_set_self _ _ _)
      exact List.mem_map.mpr ⟨e, he, (serviceKey_inj.mp heq).2.symm⟩
    · exact ih hnd.2 hmem

/-- **A rebuild writes the records of the services of its scope that have instances.** -/
theorem partAt_rebuild (s : BrokerState) {serviceId : JsString}
    (h : s.serviceInstances scope serviceId ≠ []) :
    (s.rebuildNativeServices scope).partAt scope serviceId =
      some (partOf (s.serviceInstances scope serviceId) none) := by
  obtain ⟨record, hrecord, hpart⟩ := exists_nativeServiceRecord scope serviceId h
  have hgroup : (groupByService (s.nativeInstances.values.filter fun i => i.scope = scope)).get? serviceId =
      some (s.serviceInstances scope serviceId) := (get?_groupByService _ serviceId).trans (if_neg h)
  have hget : (s.rebuildNativeServices scope).services.get? (serviceKey scope serviceId) = some record :=
    get?_writeGroups_of_mem (JsMap.nodup _) (JsMap.get?_eq_some_iff.mp hgroup) hrecord
  rw [partAt, hget]
  exact congrArg some hpart

/-- A rebuild leaves the services of other scopes alone. -/
theorem partAt_rebuild_of_ne {other : ResourceScope} (hne : other ≠ scope) (hs : s.services.All (ServiceOk L))
    (serviceId : JsString) :
    (s.rebuildNativeServices scope).partAt other serviceId = s.partAt other serviceId := by
  rw [partAt, partAt, rebuildNativeServices]
  refine congrArg (Option.map nativePart) ?_
  refine (get?_writeGroups_of_notMem fun e _ heq => hne (serviceKey_inj.mp heq).1).trans ?_
  rw [JsMap.get?_filter]
  rcases hg : s.services.get? (serviceKey other serviceId) with - | r
  · rfl
  · have hscope : r.scope = other := (serviceKey_inj.mp (hs _ _ hg).key).1.symm
    rw [Option.filter_some, hscope, decide_eq_false hne, Bool.false_and, Bool.false_and]
    rfl

/-! ### Requests that write other records -/

theorem partAt_touchService {other : ResourceScope} {serviceId serviceId' : JsString}
    (hne : ¬ (other = scope ∧ serviceId = serviceId')) (sdk : Option AgentSdk) (status : Option AgentStatus)
    (commit : Option JsString) (source : Option CommitSource) (capabilities : Option (List JsString)) :
    (s.touchService now serviceId' sdk status commit source scope capabilities).partAt other serviceId =
      s.partAt other serviceId :=
  congrArg (Option.map nativePart) (JsMap.get?_set_of_ne (fun heq => hne (serviceKey_inj.mp heq)) _)

theorem partAt_refresh (now : ℕ) (scope other : ResourceScope) (serviceId' serviceId : JsString) (s : BrokerState) :
    (s.refreshServiceCapabilities now scope serviceId').partAt other serviceId = s.partAt other serviceId := by
  rw [partAt, partAt, services_refresh, JsMap.get?_mapVals, Option.map_map]
  refine congrArg (fun f => Option.map f _) (funext fun r => ?_)
  rw [Function.comp_apply]
  split <;> rfl

theorem services_ingestNativeEvent (cfg : Config) (scope : ResourceScope) (input : NativeIngestEnvelope)
    (e : ProbeEvent) (s : BrokerState) :
    (s.ingestNativeEvent cfg scope input e).services = s.services := by
  obtain h | ⟨status, -, -, h⟩ := ingestNativeEvent_eq cfg scope input s e
  · rw [h]
    rfl
  · obtain ⟨statuses, -, heq⟩ := deriveNativeLogicalStatus_eq e.probeId scope
      ((s.appendEvent cfg e).withNativeStatus scope input (statusKeyOf scope input e) status)
    rw [h, heq]
    rfl

end BrokerState

/-- The service a request of a managed agent speaks for. -/
def Request.managedService : Request → Option JsString
  | .pollProbes serviceId _ _ => some serviceId
  | .ingest input => some input.serviceId
  | _ => none

/-- The requests of native agents that write records. -/
def Request.writesNative : Request → Bool
  | .replaceNativeInstances .. | .ingestNative .. => true
  | _ => false

namespace BrokerState

variable {cfg : Config} {L : Limits} {now : ℕ} {scope : ResourceScope} {r : Request}
  {s t : BrokerState}

/-- A change of another kind leaves what is recorded of native instances. -/
theorem partAt_change (hc : Change cfg now scope r s t) (hr : r.writesNative = false)
    {other : ResourceScope} {serviceId : JsString}
    (quiet : ¬ (other = scope ∧ r.managedService = some serviceId)) :
    t.partAt other serviceId = s.partAt other serviceId := by
  cases hc with
  | expire =>
    obtain ⟨_, _, _, _, _, h⟩ := frame_expireDueProbes cfg now s
    rw [h]
    rfl
  | refresh serviceId' => exact partAt_refresh now scope other serviceId' serviceId s
  | touch serviceId' since commitSha isPoll =>
    subst isPoll
    refine partAt_touchService (fun ⟨hscope, hid⟩ => quiet ⟨hscope, ?_⟩) _ _ _ _ _
    rw [hid]
    rfl
  | claim serviceId' commitSha uploaderId =>
    rcases clearForeignMaps_eq now (sourceMapKey scope serviceId' commitSha) uploaderId s with
      h | ⟨_, _, h⟩ <;> rw [h] <;> rfl
  | complete serviceId' commitSha uploaderId _ marked =>
    rw [dropSourceMaps_eq, marked]
    rfl
  | report input isIngest =>
    subst isIngest
    refine partAt_touchService (fun ⟨hscope, hid⟩ => quiet ⟨hscope, ?_⟩) _ _ _ _ _
    rw [hid]
    rfl
  | event input e =>
    obtain ⟨_, _, h⟩ := ingestEvent_eq cfg s e
    rw [h]
    rfl
  | register input record _ parsed =>
    rw [registerNativeAgent_eq parsed]
    rfl
  | replace agentId instances allowed agent isReplace => subst isReplace; cases hr
  | nativeEvent input i stored e isIngest => subst isIngest; cases hr
  | touchNative input isIngest => subst isIngest; cases hr
  | _ => rfl

/-! ### Batches and replacements -/

theorem services_ingestNativeEvents (cfg : Config) (scope : ResourceScope) (input : NativeIngestEnvelope)
    (l : List ProbeEvent) (s : BrokerState) :
    (l.foldl (ingestNativeEvent cfg scope input) s).services = s.services := by
  induction l generalizing s with
  | nil => rfl
  | cons e l ih => exact (ih _).trans (services_ingestNativeEvent cfg scope input e s)

/-- An accepted batch gives the record of its service the status of the agent. -/
theorem partAt_touchNativeService (now : ℕ) (scope other : ResourceScope) (input : NativeIngestEnvelope)
    (serviceId : JsString) (s : BrokerState) :
    (s.touchNativeService now scope input).partAt other serviceId =
      if other = scope ∧ serviceId = input.serviceId then
        (s.partAt other serviceId).map fun part => { part with agentStatus := some input.agentStatus }
      else s.partAt other serviceId := by
  rw [partAt, partAt, touchNativeService]
  rcases hg : s.services.get? (serviceKey scope input.serviceId) with - | r
  · dsimp only
    split
    · next heq => rw [heq.1, heq.2, hg]; rfl
    · rfl
  · dsimp only
    rw [JsMap.get?_set]
    by_cases heq : other = scope ∧ serviceId = input.serviceId
    · rw [if_pos heq, if_pos (serviceKey_inj.mpr heq), heq.1, heq.2, hg]
      rfl
    · rw [if_neg heq, if_neg fun h => heq (serviceKey_inj.mp h)]

theorem isOk_ingestNative_of_rejected {input : NativeIngestEnvelope}
    (h : s.nativeBatch now scope input = none) : (s.ingestNative cfg now input scope).2.isOk = false := by
  by_cases hany : (s.nativeInstances.get? (nativeInstanceKey scope input.agentId
      input.instanceId)).any (isTarget input) = true
  · simp only [nativeBatch, if_pos hany] at h
    simp only [ingestNative, ingestNativeChecked, if_pos hany]
    generalize (s.pruneRemovedProbes now).acceptNativeEvents input scope input.events = answer at h ⊢
    rcases answer with e | accepted
    · cases e <;> rfl
    · cases h
  · simp only [ingestNative, ingestNativeChecked, if_neg hany]
    rfl

/-- A batch is refused and touches no record, or it is accepted. -/
theorem ingestNative_cases (cfg : Config) (now : ℕ) (scope : ResourceScope) (input : NativeIngestEnvelope)
    (s : BrokerState) :
    (s.ingestNative cfg now input scope).1.nativeInstances = s.nativeInstances ∧
      (((s.ingestNative cfg now input scope).2.isOk = false ∧
          (s.ingestNative cfg now input scope).1.services = s.services) ∨
        ((s.ingestNative cfg now input scope).2.isOk = true ∧
          ∃ t : BrokerState, t.services = s.services ∧
            (s.ingestNative cfg now input scope).1.services =
              (t.touchNativeService now scope input).services)) := by
  obtain ⟨hrejected, _, _, heq⟩ | ⟨t, accepted, hbatch, heq⟩ := ingestNative_batch cfg now scope input s
  · rw [heq]
    exact ⟨rfl, .inl ⟨isOk_ingestNative_of_rejected hrejected, rfl⟩⟩
  · obtain ⟨⟨_, _, ht⟩, -, -⟩ := nativeBatch_eq_some hbatch
    have hinstances : t.nativeInstances = s.nativeInstances := by rw [ht]
    have hservices : t.services = s.services := by rw [ht]
    rw [heq]
    refine ⟨?_, .inr ⟨rfl, _, (services_ingestNativeEvents cfg scope input accepted t).trans hservices, rfl⟩⟩
    refine (?_ : _ = _).trans ((frame_ingestNativeEvents cfg scope input accepted t).2.trans hinstances)
    rcases touchNativeService_eq now scope input (accepted.foldl (ingestNativeEvent cfg scope input) t) with
      h | ⟨_, _, h⟩ <;> rw [h]

theorem nativeInstanceKey_scope {a b : ResourceScope} {x y x' y' : JsString}
    (h : nativeInstanceKey a x y = nativeInstanceKey b x' y') : a = b := by
  simp only [nativeInstanceKey, nativeAgentKey, List.append_assoc, List.cons_append] at h
  exact (scopeKey_append_inj h).1

/-- A replacement in a scope leaves the instances of the others alone. -/
theorem serviceInstances_replaced {other : ResourceScope} (hne : other ≠ scope)
    (h : s.nativeInstances.All (InstanceOk L)) (agent : NativeAgentRecord) (agentId : JsString)
    (instances : List NativeInstance) (serviceId : JsString) :
    ({ s with nativeInstances := s.replacedInstances scope agent agentId instances } :
      BrokerState).serviceInstances other serviceId = s.serviceInstances other serviceId := by
  -- every instance sits under a key of its scope
  have stored : ∀ (l : List NativeInstance) (m : JsMap JsString NativeInstanceRecord),
      (m.All fun k i => ∃ x y, k = nativeInstanceKey i.scope x y) →
        (storeInstances scope agent agentId l m).values.filter (fun i => i.scope = other) =
          m.values.filter fun i => i.scope = other := by
    intro l
    induction l with
    | nil => exact fun _ _ => rfl
    | cons i l ih =>
      intro m hm
      have hset := ih (m.set (nativeInstanceKey scope agentId i.instanceId) (instanceRecord scope agent agentId i))
        (hm.set ⟨agentId, i.instanceId, rfl⟩)
      refine hset.trans (JsMap.filter_values_set (decide_eq_false (Ne.symm hne)) fun w hw => ?_)
      obtain ⟨x, y, hk⟩ := hm _ _ hw
      exact decide_eq_false fun hw' => hne (hw'.symm.trans (nativeInstanceKey_scope hk).symm)
  have dropped : (s.dropInstances scope agentId (instances.map (·.instanceId))).nativeInstances.values.filter
      (fun i => i.scope = other) = s.nativeInstances.values.filter fun i => i.scope = other := by
    simp only [dropInstances, JsMap.values, JsMap.entries_filter, List.filter_map, List.filter_filter]
    refine congrArg (List.map Prod.snd) (List.filter_congr fun e _ => ?_)
    rw [Function.comp_apply]
    by_cases hscope : e.2.scope = other
    · rw [decide_eq_true hscope, hscope, decide_eq_false hne]
      rfl
    · rw [decide_eq_false hscope, Bool.false_and]
  have hkeys : (s.dropInstances scope agentId (instances.map (·.instanceId))).nativeInstances.All
      fun k i => ∃ x y, k = nativeInstanceKey i.scope x y :=
    (h.mono fun k i hi => ⟨i.agentId, i.instanceId, hi.key⟩).filter _
  exact congrArg (List.filter fun i => i.serviceId = serviceId) ((stored instances _ hkeys).trans dropped)

end BrokerState

/-! ### What is remembered -/

/-- For every service the status of the last native batch that was accepted,
and whether instances of its scope were replaced since. -/
abbrev Reports := ResourceScope × JsString → Option (AgentStatus × Bool)

def rememberReports (cfg : Config) (now : ℕ) (scope : ResourceScope) (r : Request) (s : BrokerState)
    (m : Reports) : Reports :=
  match r with
  | .ingestNative input =>
    if (s.ingestNative cfg now input scope).2.isOk then
      Function.update m (scope, input.serviceId) (some (input.agentStatus, false))
    else m
  | .replaceNativeInstances agentId instances allowed =>
    if (s.replaceNativeInstances now agentId instances scope allowed).2.isOk then
      fun service => if service.1 = scope then (m service).map fun report => (report.1, true) else m service
    else m
  | _ => m

/-- The record of every service with native instances is theirs, and has the
status of the last batch unless there was a replacement since. -/
def InStep (s : BrokerState) (m : Reports) : Prop :=
  ∀ scope serviceId, s.serviceInstances scope serviceId ≠ [] →
    ∃ agentStatus, s.partAt scope serviceId =
        some (partOf (s.serviceInstances scope serviceId) agentStatus) ∧
      ∀ status replaced, m (scope, serviceId) = some (status, replaced) →
        agentStatus = if replaced then none else some status

namespace InStep

variable {cfg : Config} {L : Limits} {now : ℕ} {scope : ResourceScope} {r : Request}
  {s t : BrokerState} {m : Reports}

theorem congr (h : InStep s m) (hi : t.nativeInstances = s.nativeInstances)
    (hp : ∀ scope serviceId, s.serviceInstances scope serviceId ≠ [] →
      t.partAt scope serviceId = s.partAt scope serviceId) : InStep t m := by
  intro scope serviceId hne
  have hsame : t.serviceInstances scope serviceId = s.serviceInstances scope serviceId := by
    rw [serviceInstances, serviceInstances, hi]
  rw [hsame] at hne ⊢
  rw [hp scope serviceId hne]
  exact h scope serviceId hne

/-- A request that is not native keeps what is recorded, when it does not speak
for a service with native instances. -/
theorem other (h : InStep s m) (hi : Indexed s) (hrec : Records cfg .schemas s) (hv : r.Valid)
    (hr : r.writesNative = false)
    (quiet : ∀ serviceId, r.managedService = some serviceId → s.serviceInstances scope serviceId = [])
    (hc : Changes cfg now scope r s t) : InStep t m := by
  refine (hrec.changes_induction (I := fun u => u.nativeInstances = s.nativeInstances ∧ InStep u m)
    hi hv ⟨rfl, h⟩ (fun u v _ hu ⟨hsame, hI⟩ hstep => ?_) hc).2
  have hinstances : v.nativeInstances = u.nativeInstances := by
    rcases nativeInstances_change hu.nativeAgents hv hstep with heq | ⟨_, _, _, _, hreplace, -⟩
    · exact heq
    · rw [hreplace] at hr
      cases hr
  refine ⟨hinstances.trans hsame, hI.congr hinstances fun other serviceId hne => ?_⟩
  refine partAt_change hstep hr ?_
  rintro ⟨rfl, hmanaged⟩
  apply hne
  rw [serviceInstances, hsame]
  exact quiet serviceId hmanaged

/-- An accepted batch is the last of its service. -/
theorem batch (h : InStep s m) (input : NativeIngestEnvelope) :
    InStep (s.ingestNative cfg now input scope).1
      (rememberReports cfg now scope (.ingestNative input) s m) := by
  obtain ⟨hinstances, ⟨hno, hservices⟩ | ⟨hyes, t, hservices, heq⟩⟩ := ingestNative_cases cfg now scope input s
  · have hm : rememberReports cfg now scope (.ingestNative input) s m = m :=
      if_neg fun hok => absurd (hno.symm.trans hok) (by decide)
    rw [hm]
    exact h.congr hinstances fun scope serviceId _ => by rw [partAt, partAt, hservices]
  have hm : rememberReports cfg now scope (.ingestNative input) s m =
      Function.update m (scope, input.serviceId) (some (input.agentStatus, false)) := if_pos hyes
  rw [hm]
  intro other serviceId hne
  have hsame : (s.ingestNative cfg now input scope).1.serviceInstances other serviceId =
      s.serviceInstances other serviceId := by
    rw [serviceInstances, serviceInstances, hinstances]
  have hpart : (s.ingestNative cfg now input scope).1.partAt other serviceId =
      (t.touchNativeService now scope input).partAt other serviceId := by
    rw [partAt, partAt, heq]
  have hold : t.partAt other serviceId = s.partAt other serviceId := by
    rw [partAt, partAt, hservices]
  rw [hsame] at hne ⊢
  obtain ⟨agentStatus, hrecorded, hlast⟩ := h other serviceId hne
  rw [hpart, partAt_touchNativeService, hold, hrecorded]
  by_cases hservice : other = scope ∧ serviceId = input.serviceId
  · refine ⟨some input.agentStatus, if_pos hservice, fun status replaced hmem => ?_⟩
    rw [hservice.1, hservice.2, Function.update_self] at hmem
    obtain ⟨rfl, rfl⟩ := Prod.mk.inj (Option.some.inj hmem)
    rfl
  · refine ⟨agentStatus, if_neg hservice, fun status replaced hmem => hlast status replaced ?_⟩
    rwa [Function.update_of_ne fun heq => hservice (Prod.mk.inj heq)] at hmem

/-- A replacement writes the records of its scope anew. -/
theorem replacement (h : InStep s m) (hrec : Records cfg L s) (now : ℕ) {agentId : JsString}
    {instances : List NativeInstance} {allowed : List JsString}
    (hv : (Request.replaceNativeInstances agentId instances allowed).Valid) :
    InStep (s.replaceNativeInstances now agentId instances scope allowed).1
      (rememberReports cfg now scope (.replaceNativeInstances agentId instances allowed) s m) := by
  obtain ⟨e, heq⟩ | ⟨agent, changed, heq⟩ := replaceNativeInstances_cases now scope hrec.nativeAgents hv
  · have hm : rememberReports cfg now scope (.replaceNativeInstances agentId instances allowed) s m = m :=
      if_neg fun hok => by rw [heq] at hok; cases hok
    rw [hm, heq]
    exact h
  have hm : rememberReports cfg now scope (.replaceNativeInstances agentId instances allowed) s m =
      fun service => if service.1 = scope then (m service).map fun report => (report.1, true) else m service :=
    if_pos (by rw [heq]; rfl)
  rw [hm, heq]
  intro other serviceId hne
  by_cases hscope : other = scope
  · subst hscope
    refine ⟨none, partAt_rebuild _ hne, fun status replaced hmem => ?_⟩
    replace hmem := (if_pos rfl).symm.trans hmem
    obtain ⟨report, -, hreport⟩ := Option.map_eq_some_iff.mp hmem
    obtain ⟨-, rfl⟩ := Prod.mk.inj hreport
    rfl
  · have hsame : ({ s with nativeInstances := s.replacedInstances scope agent agentId instances } :
        BrokerState).serviceInstances other serviceId = s.serviceInstances other serviceId :=
      serviceInstances_replaced hscope hrec.nativeInstances agent agentId instances serviceId
    change ({ s with nativeInstances := s.replacedInstances scope agent agentId instances } :
      BrokerState).serviceInstances other serviceId ≠ [] at hne
    rw [hsame] at hne
    obtain ⟨agentStatus, hrecorded, hlast⟩ := h other serviceId hne
    refine ⟨agentStatus, ?_, fun status replaced hmem => hlast status replaced ?_⟩
    · refine (partAt_rebuild_of_ne hscope (L := L) ?_ serviceId).trans ?_
      · exact hrec.services
      exact hrecorded.trans (congrArg (fun l => some (partOf l agentStatus)) hsame.symm)
    · exact (if_neg hscope).symm.trans hmem

theorem expireDueProbes (h : InStep s m) : InStep (s.expireDueProbes cfg now) m := by
  obtain ⟨_, _, _, _, _, heq⟩ := frame_expireDueProbes cfg now s
  rw [heq]
  exact h.congr rfl fun _ _ _ => rfl

/-- A restored state has the records and the instances of the one that was saved. -/
theorem refill (h : InStep s m) (hrec : Records cfg L s) {n : ℕ} {b : BrokerSnapshot}
    (hb : s.snapshot n = some b) (t : BrokerState) : InStep (t.refill cfg b) m := by
  refine h.congr (nativeInstances_refill t hrec hb) fun scope serviceId _ => ?_
  rw [partAt, partAt, services_refill t hrec hb, JsMap.get?_mapVals, Option.map_map]
  rfl

end InStep

/-- No managed agent speaks for a service that has native instances, or it is refused. -/
def ManagedApart (cfg : Config) (s : BrokerState) : ProcessEvent → Prop
  | .request _ scope (.pollProbes serviceId _ _) => s.serviceInstances scope serviceId = []
  | .request now scope (.ingest input) =>
    checkEvents input scope (s.expireDueProbes cfg now) input.events = .ok () →
      s.serviceInstances scope input.serviceId = []
  | _ => True

namespace InStep

variable {cfg : Config} {now : ℕ} {scope : ResourceScope} {r : Request} {s : BrokerState} {m : Reports}

/-- **A request keeps the records in step with the instances.** -/
theorem handle (h : InStep s m) (hi : Indexed s) (hrec : Records cfg .schemas s) (hv : r.Valid)
    (hapart : ManagedApart cfg s (.request now scope r)) :
    InStep (s.handle cfg now scope r).1 (rememberReports cfg now scope r s m) := by
  have hc := handle_changes cfg now scope r s
  cases r with
  | ingestNative input => exact h.batch input
  | replaceNativeInstances agentId instances allowed => exact h.replacement hrec now hv
  | pollProbes serviceId since commitSha =>
    refine h.other hi hrec hv rfl (fun serviceId' hmanaged => ?_) hc
    obtain rfl := Option.some.inj hmanaged
    exact hapart
  | ingest input =>
    rcases hok : checkEvents input scope (s.expireDueProbes cfg now) input.events with e | ⟨⟩
    · have hrefused : (s.ingest cfg now input scope).1 = s.expireDueProbes cfg now := by
        simp only [ingest, hok]
      show InStep (s.ingest cfg now input scope).1 m
      rw [hrefused]
      exact h.expireDueProbes
    · refine h.other hi hrec hv rfl (fun serviceId' hmanaged => ?_) hc
      obtain rfl := Option.some.inj hmanaged
      exact hapart hok
  | _ => exact h.other hi hrec hv rfl (fun _ hmanaged => by cases hmanaged) hc

end InStep

namespace BrokerState

variable {cfg : Config} {L : Limits} {now : ℕ} {scope : ResourceScope} {s : BrokerState}
  {serviceId : JsString}

/-! ### What is shown -/

/-- The one entry of a service in a list of services is its record. -/
theorem mem_listServices (hs : s.services.All (ServiceOk L)) {r : ServiceRecord} :
    r ∈ (s.listServices cfg now scope).2 ∧ r.serviceId = serviceId ↔
      ∃ q, s.services.get? (serviceKey scope serviceId) = some q ∧
        r = publicService (s.withCapabilities now (serviceKey scope serviceId) q) := by
  rw [listServices_answer cfg now scope fun k q hq => (hs k q hq).key, List.mem_mergeSort, List.mem_map]
  constructor
  · rintro ⟨⟨⟨k, q⟩, he, rfl⟩, hid⟩
    obtain ⟨he, hscope⟩ := List.mem_filter.mp he
    have hq := JsMap.get?_eq_some_iff.mpr he
    have hk : k = serviceKey scope serviceId := by
      rw [(hs k q hq).key, of_decide_eq_true hscope]
      exact congrArg (serviceKey scope) hid
    exact ⟨q, hk ▸ hq, by rw [hk]⟩
  · rintro ⟨q, hq, rfl⟩
    obtain ⟨hscope, hid⟩ := serviceKey_inj.mp (hs _ q hq).key
    exact ⟨⟨(_, q), List.mem_filter.mpr ⟨JsMap.get?_eq_some_iff.mp hq, decide_eq_true hscope.symm⟩, rfl⟩,
      hid.symm⟩

/-- A service with native instances is shown as theirs. -/
structure ShowsNative (cfg : Config) (now : ℕ) (s : BrokerState) (scope : ResourceScope)
    (serviceId : JsString) (last : Option AgentStatus) : Prop where
  backend : ∃ r, s.services.get? (serviceKey scope serviceId) = some r ∧ r.backend = some .nativeEbpf
  gate : ∀ draws input compiled e, input.serviceId = serviceId →
    compileProbeInput cfg.jsep input = .ok compiled → checkNativeBackend input = .error e →
      (s.createProbe cfg now draws input scope).2 = .error e
  listed : ∃ r ∈ (s.listServices cfg now scope).2, r.serviceId = serviceId
  shown : ∀ r ∈ (s.listServices cfg now scope).2, r.serviceId = serviceId →
    r.backend = some .nativeEbpf ∧
      r.capabilities = some (commonCapabilities (s.serviceInstances scope serviceId)) ∧
      r.instanceCount = some (s.serviceInstances scope serviceId).length ∧
      r.buildIds = some (buildIdsOf (s.serviceInstances scope serviceId)) ∧
      ∀ status, last = some status → r.agentStatus = some status

/-- A native record closes `createProbe` to what the backend cannot do. -/
theorem createProbe_native {part : NativePart} (hpart : s.partAt scope serviceId = some part)
    (hbackend : part.backend = some .nativeEbpf) (draws : ℕ → JsString) {input : CreateProbeInput}
    {compiled : CompiledInput} {e : BrokerError} (hid : input.serviceId = serviceId)
    (hcompile : compileProbeInput cfg.jsep input = .ok compiled)
    (hcheck : checkNativeBackend input = .error e) :
    (s.createProbe cfg now draws input scope).2 = .error e := by
  subst hid
  have hrefreshed := (partAt_refresh now scope scope input.serviceId input.serviceId s).trans hpart
  obtain ⟨r, hr, hpartr⟩ := Option.map_eq_some_iff.mp hrefreshed
  have hrb : r.backend = some .nativeEbpf := (congrArg NativePart.backend hpartr).trans hbackend
  have hchecked : checkService (some r) input compiled = .error e := by
    rw [checkService, Option.bind_some, if_pos hrb, hcheck]
    rfl
  simp only [createProbe, hcompile, hr, hchecked]

/-- What remains to be asked of a record that is the instances' own. -/
theorem showsNative_iff (hs : s.services.All (ServiceOk L)) {agentStatus last : Option AgentStatus}
    (hpart : s.partAt scope serviceId =
      some (partOf (s.serviceInstances scope serviceId) agentStatus)) :
    ShowsNative cfg now s scope serviceId last ↔
      s.activeCapabilities now scope serviceId =
          commonCapabilities (s.serviceInstances scope serviceId) ∧
        ∀ status, last = some status → agentStatus = some status := by
  obtain ⟨q, hq, hpartq⟩ := Option.map_eq_some_iff.mp hpart
  have hbackend : q.backend = some .nativeEbpf := congrArg NativePart.backend hpartq
  have hcount : q.instanceCount = some (s.serviceInstances scope serviceId).length :=
    congrArg NativePart.instanceCount hpartq
  have hbuilds : q.buildIds = some (buildIdsOf (s.serviceInstances scope serviceId)) :=
    congrArg NativePart.buildIds hpartq
  have hstatus : q.agentStatus = agentStatus := congrArg NativePart.agentStatus hpartq
  have hlisted : publicService (s.withCapabilities now (serviceKey scope serviceId) q) ∈
        (s.listServices cfg now scope).2 ∧ q.serviceId = serviceId :=
    (mem_listServices hs).mpr ⟨q, hq, rfl⟩
  constructor
  · intro h
    obtain ⟨-, hcapabilities, -, -, hlast⟩ := h.shown _ hlisted.1 hlisted.2
    exact ⟨Option.some.inj hcapabilities, fun status hl => hstatus.symm.trans (hlast status hl)⟩
  · rintro ⟨hcapabilities, hlast⟩
    refine ⟨⟨q, hq, hbackend⟩, fun draws input compiled e => createProbe_native hpart rfl draws,
      ⟨_, hlisted.1, hlisted.2⟩, fun r hr hid => ?_⟩
    obtain ⟨q', hq', rfl⟩ := (mem_listServices hs).mp ⟨hr, hid⟩
    obtain rfl := Option.some.inj (hq.symm.trans hq')
    refine ⟨?_, congrArg some hcapabilities, ?_, hbuilds, fun status hl => hstatus.trans (hlast status hl)⟩
    · show some (q.backend.getD .managedRuntime) = _
      rw [hbackend]
      rfl
    · show some (q.instanceCount.getD 1) = _
      rw [hcount]
      rfl

end BrokerState

/-! ### Every run -/

namespace InStep

variable {cfg : Config} {p : History Reports}

/-- The records stay in step with the instances. -/
theorem of_reached
    (h : Reached (History.next cfg (rememberReports cfg))
      (fun p e => Process.Valid e ∧ ManagedApart cfg p.state e) { memory := fun _ => none } p) :
    (Indexed p.state ∧ Records cfg .schemas p.state) ∧ InStep p.state p.memory := by
  refine History.invariant_since
    (I := fun s m => (Indexed s ∧ Records cfg .schemas s) ∧ InStep s m) ?_ ?_ ?_ ?_ h
  · exact ⟨⟨.init, .init⟩, fun _ _ hne => absurd rfl hne⟩
  · rintro p now scope r ⟨⟨hi, hrec⟩, hm⟩ ⟨hv, hapart⟩
    have hL := Limits.schemas_admits now scope r
    exact ⟨⟨hi.handle hv, hrec.handle hi hv hL⟩, hm.handle hi hrec hv hapart⟩
  · rintro p now ⟨⟨hi, hrec⟩, hm⟩ -
    exact ⟨⟨hi.expireDueProbes, hrec.expireDueProbes hi trivial⟩, hm.expireDueProbes⟩
  · rintro p e now - - s t m b n ⟨⟨hi, hrec⟩, hm⟩ hb
    refine ⟨⟨?_, hrec.loadSnapshot t hi hb trivial⟩, ?_⟩
    · rw [loadSnapshot_of_snapshot hb]
      exact (Indexed.refill (Broker.snapshotSchema_eq_some.mp hb)).expireDueProbes
    · rw [loadSnapshot_of_snapshot hb]
      exact (hm.refill hrec hb t).expireDueProbes

/-- **Which services with native instances are shown as theirs.**  Where no
managed agent speaks for such a service, they are those whose instances have
the capabilities that the active managed agents report, and of whose scope no
instances were replaced since the last native batch. -/
theorem shown_iff
    (h : Reached (History.next cfg (rememberReports cfg))
      (fun p e => Process.Valid e ∧ ManagedApart cfg p.state e) { memory := fun _ => none } p)
    (now : ℕ) {scope : ResourceScope} {serviceId : JsString}
    (hne : p.state.serviceInstances scope serviceId ≠ []) :
    ShowsNative cfg now p.state scope serviceId ((p.memory (scope, serviceId)).map Prod.fst) ↔
      p.state.activeCapabilities now scope serviceId =
          commonCapabilities (p.state.serviceInstances scope serviceId) ∧
        ∀ status replaced, p.memory (scope, serviceId) = some (status, replaced) → replaced = false := by
  obtain ⟨⟨-, hrec⟩, hm⟩ := of_reached h
  obtain ⟨agentStatus, hpart, hlast⟩ := hm scope serviceId hne
  rw [showsNative_iff hrec.services hpart]
  refine and_congr_right fun _ => ?_
  rcases hmem : p.memory (scope, serviceId) with - | ⟨status, replaced⟩
  · constructor
    · exact fun _ _ _ hreport => by cases hreport
    · exact fun _ _ hreport => by cases hreport
  · have hstatus := hlast status replaced hmem
    constructor
    · rintro hshown _ _ ⟨⟩
      cases replaced
      · rfl
      · exact absurd ((hshown status rfl).symm.trans hstatus) (by simp)
    · rintro hno _ ⟨⟩
      rw [hstatus, hno status replaced rfl]
      rfl

end InStep

/-! ### A service with a native instance -/

namespace Sample

/-- An instance of `api` that can do one thing. -/
def instanceOf (instanceId capability : JsString) : NativeInstance :=
  { nativeInstance instanceId build with capabilities := some [capability] }

/-- An agent registers, reports instances and delivers a batch. -/
def hosting (instances : List NativeInstance) : List ProcessEvent :=
  [.request 0 scope (.registerNativeAgent (registration agent)),
    .request 0 scope (.replaceNativeInstances agent instances [js "*"]),
    .request 1000 scope (.ingestNative source)]

def runReports (l : List ProcessEvent) : History Reports :=
  l.foldl (History.next config (rememberReports config)) { memory := fun _ => none }

theorem hosting_reached {instances : List NativeInstance}
    (hinstances : Protocol.nativeInstanceSetSchema instances = some instances) :
    Reached (History.next config (rememberReports config))
      (fun p e => Process.Valid e ∧ ManagedApart config p.state e) { memory := fun _ => none }
      (runReports (hosting instances)) := by
  have hregister : Protocol.nativeAgentRegistrationSchema (registration agent) =
      some (registration agent) := by decide
  have hagent : Protocol.agentIdSchema agent = some agent := by decide
  have hsource : Protocol.nativeIngestEnvelopeSchema source = some source := by
    have hids : agentIdSchema source.agentId = some source.agentId ∧
        serviceIdSchema source.serviceId = some source.serviceId ∧
        instanceIdSchema source.instanceId = some source.instanceId ∧
        buildIdSchema source.buildId = some source.buildId ∧
        nativeAgentStatusSchema source.agentStatus = some source.agentStatus := by
      decide
    obtain ⟨h₁, h₂, h₃, h₄, h₅⟩ := hids
    have hevents : boundedArray nativeProbeEventSchema 0 1000 source.events = some source.events := rfl
    simp only [nativeIngestEnvelopeSchema, h₁, h₂, h₃, h₄, h₅, hevents, Option.bind_eq_bind,
      Option.bind_some, Option.pure_def]
  exact Reached.foldl .init
    ⟨⟨hregister, trivial⟩, ⟨⟨hagent, hinstances⟩, trivial⟩, ⟨hsource, trivial⟩, trivial⟩

/-- Two instances that have nothing in common are shown with the status of their agent. -/
theorem shown_apart :
    ShowsNative config 1000
      (runReports (hosting [instanceOf instanceA (js "counter"), instanceOf (js "b") (js "log")])).state
      scope (js "api") (some { state := .green }) := by
  have hmemory : (runReports (hosting [instanceOf instanceA (js "counter"),
      instanceOf (js "b") (js "log")])).memory (scope, js "api") = some ({ state := .green }, false) := by
    decide
  have hcapabilities : (runReports (hosting [instanceOf instanceA (js "counter"),
        instanceOf (js "b") (js "log")])).state.activeCapabilities 1000 scope (js "api") =
      commonCapabilities ((runReports (hosting [instanceOf instanceA (js "counter"),
        instanceOf (js "b") (js "log")])).state.serviceInstances scope (js "api")) ∧
      (runReports (hosting [instanceOf instanceA (js "counter"),
        instanceOf (js "b") (js "log")])).state.serviceInstances scope (js "api") ≠ [] := by
    decide +kernel
  have h := (InStep.shown_iff (hosting_reached (by decide)) 1000 hcapabilities.2).mpr
    ⟨hcapabilities.1, fun status replaced hmem => by
      rw [hmemory] at hmem
      exact (Prod.mk.inj (Option.some.inj hmem)).2.symm⟩
  rw [hmemory] at h
  exact h

/-- The capability of the one instance is not listed. -/
theorem capability_unlisted :
    ∃ p : History Reports, Reached (History.next config (rememberReports config))
        (fun _ e => Process.Valid e) { memory := fun _ => none } p ∧
      p.state.serviceInstances scope (js "api") ≠ [] ∧
      ¬ ShowsNative config 1000 p.state scope (js "api")
          ((p.memory (scope, js "api")).map Prod.fst) := by
  have hdiffers : (runReports (hosting [instanceOf instanceA (js "counter")])).state.serviceInstances scope
        (js "api") ≠ [] ∧
      ((runReports (hosting [instanceOf instanceA (js "counter")])).state.listServices config 1000
        scope).2.all (fun r => r.capabilities ≠ some (commonCapabilities
          ((runReports (hosting [instanceOf instanceA (js "counter")])).state.serviceInstances scope
            (js "api")))) = true := by
    decide +kernel
  refine ⟨_, (hosting_reached (by decide)).mono fun p e h => h.1, hdiffers.1, fun h => ?_⟩
  obtain ⟨r, hr, hid⟩ := h.listed
  exact of_decide_eq_true (List.all_eq_true.mp hdiffers.2 r hr) (h.shown r hr hid).2.1

end Sample
