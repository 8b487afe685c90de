/-
LiveProbe/Changes.lean

What a request can do to the state, said once.

`Change` lists the elementary changes with all that is known when they happen:
a probe expires, a probe enters or leaves, a service record is touched, a lease
is granted, an agent's instances are replaced, an event is stored.  Every
request is a sequence of them (`handle_changes`), so a property of runs needs
one case for each kind of change and no request is unfolded again.
-/
import LiveProbe.Broker
import Mathlib.Logic.Relation

open JsString Broker BrokerState

/-- An elementary change of the state, made at a clock value by a request of a
scope. -/
inductive Change (cfg : Config) (now : ℕ) (scope : ResourceScope) (r : Request) :
    BrokerState → BrokerState → Prop
  /-- The probes that are due expire. -/
  | expire {s} : Change cfg now scope r s (s.expireDueProbes cfg now)
  /-- A service's capabilities are computed anew. -/
  | refresh {s} (serviceId : JsString) :
      Change cfg now scope r s (s.refreshServiceCapabilities now scope serviceId)
  /-- A poll touches the service record. -/
  | touch {s} (serviceId : JsString) (since : ℤ) (commitSha : Option JsString)
      (isPoll : r = .pollProbes serviceId since commitSha) :
      Change cfg now scope r s
        (s.touchService now serviceId none none none none scope none)
  /-- A definition is rejected after its version was drawn. -/
  | failCreate {s} (draws : ℕ → JsString) (input : CreateProbeInput)
      (isCreate : r = .createProbe draws input) :
      Change cfg now scope r s (s.incrementServiceVersion input.serviceId scope)
  /-- A probe enters. -/
  | create {s} (draws : ℕ → JsString) (input : CreateProbeInput) (compiled : CompiledInput)
      (id : JsString) (probe : ProbeDefinition)
      (isCreate : r = .createProbe draws input)
      (compiles : compileProbeInput cfg.jsep input = .ok compiled)
      (drawn : s.drawProbeId draws = some id)
      (parsed : Protocol.probeDefinitionSchema (BrokerState.newDefinition compiled id
        (s.serviceVersion scope input.serviceId + 1)) = some probe) :
      Change cfg now scope r s
        ((s.incrementServiceVersion input.serviceId scope).insertProbe now scope probe)
  /-- An expired probe leaves. -/
  | deleteExpired {s} (id : JsString) (stored : StoredProbe) (isDelete : r = .deleteProbe id)
      (found : s.probes.get? id = some stored) (own : stored.scope = scope)
      (expired : stored.expired = true) :
      Change cfg now scope r s (s.removeProbe now id)
  /-- A live probe leaves. -/
  | deleteLive {s} (id : JsString) (stored : StoredProbe) (isDelete : r = .deleteProbe id)
      (found : s.probes.get? id = some stored) (own : stored.scope = scope)
      (live : stored.expired = false) :
      Change cfg now scope r s
        ((s.incrementServiceVersion stored.probe.serviceId scope).removeProbe now id)
  /-- An uploader claims a set that is not complete. -/
  | claim {s} (serviceId commitSha uploaderId : JsString)
      (isStatus : r = .sourceMapStatus serviceId commitSha uploaderId)
      (incomplete : (s.sourceMapSets.get? (sourceMapKey scope serviceId commitSha)).any
        (·.complete) = false) :
      Change cfg now scope r s
        ((s.clearForeignMaps now (sourceMapKey scope serviceId commitSha) uploaderId).grantLease now
          (sourceMapKey scope serviceId commitSha) uploaderId)
  /-- An uploader renews the lease it holds. -/
  | renew {s} (serviceId commitSha uploaderId : JsString)
      (held : BrokerState.holdsLease now uploaderId
        (s.sourceMapLeases.get? (sourceMapKey scope serviceId commitSha)) = true) :
      Change cfg now scope r s
        (s.grantLease now (sourceMapKey scope serviceId commitSha) uploaderId)
  /-- A source map is stored by the holder of the lease. -/
  | upload {s} (input : BrokerState.SourceMapUpload) (isUpload : r = .uploadSourceMap input)
      (leased : s.sourceMapLeases.has (sourceMapKey scope input.serviceId input.commitSha) = true) :
      Change cfg now scope r s (s.addSourceMap now input scope)
  /-- A set is completed and surplus sets are dropped. -/
  | complete {s t} (serviceId commitSha uploaderId : JsString)
      (isComplete : r = .completeSourceMaps serviceId commitSha uploaderId)
      (marked : t = (s.markComplete now serviceId commitSha scope).incrementServiceVersion
        serviceId scope) :
      Change cfg now scope r s
        (t.dropSourceMaps
          (BrokerState.surplusSourceMaps cfg serviceId scope t.sourceMapSets))
  /-- An agent reports itself, before its events are stored. -/
  | report {s} (input : IngestInput) (isIngest : r = .ingest input) :
      Change cfg now scope r s (s.ingestAgent now input scope)
  /-- An event of a managed runtime is stored. -/
  | event {s} (input : IngestInput) (e : ProbeEvent) (isIngest : r = .ingest input)
      (mem : e ∈ input.events)
      (checked : checkEvent input scope (s.probes.get? e.probeId) e = .ok ()) :
      Change cfg now scope r s (s.ingestEvent cfg e)
  /-- A native agent registers. -/
  | register {s} (input : NativeAgentRegistration) (record : NativeAgentRecord)
      (isRegister : r = .registerNativeAgent input)
      (parsed : persistedNativeAgentSchema
        { toNativeAgentRegistration := input, scope, lastSeen := IsoDate.toISOString now } =
          some record) :
      Change cfg now scope r s (s.registerNativeAgent now input scope).1
  /-- An agent's instances are replaced, or the replacement stops at a record
  its schema rejects. -/
  | replace {s} (agentId : JsString) (instances : List NativeInstance)
      (allowedServiceIds : List JsString) (agent : NativeAgentRecord)
      (isReplace : r = .replaceNativeInstances agentId instances allowedServiceIds)
      (registered : s.nativeAgents.get? (nativeAgentKey scope agentId) = some agent)
      (checked : checkInstances (s.ownedByAnother scope agentId) allowedServiceIds [] instances =
        .ok ()) :
      Change cfg now scope r s
        (s.replaceNativeInstances now agentId instances scope allowedServiceIds).1
  /-- Removed probes of long ago are forgotten. -/
  | prune {s} : Change cfg now scope r s (s.pruneRemovedProbes now)
  /-- A service's ingest health changes. -/
  | health {s} (serviceId : JsString) (f : NativeIngestHealth → NativeIngestHealth) :
      Change cfg now scope r s (s.recordHealth scope serviceId f)
  /-- An event of a native agent is stored. -/
  | nativeEvent {s} (input : NativeIngestEnvelope) (i : NativeInstanceRecord) (stored : StoredProbe)
      (e : ProbeEvent) (isIngest : r = .ingestNative input) (mem : e ∈ input.events)
      (inst : s.nativeInstances.get? (nativeInstanceKey scope input.agentId input.instanceId) =
        some i)
      (target : isTarget input i = true)
      (found : s.probes.get? e.probeId = some stored)
      (checked : checkNativeEvent input scope stored e = .ok ()) :
      Change cfg now scope r s (s.ingestNativeEvent cfg scope input e)
  /-- A native batch touches the service record. -/
  | touchNative {s} (input : NativeIngestEnvelope) (isIngest : r = .ingestNative input) :
      Change cfg now scope r s (s.touchNativeService now scope input)

/-- A sequence of changes. -/
abbrev Changes (cfg : Config) (now : ℕ) (scope : ResourceScope) (r : Request) :
    BrokerState → BrokerState → Prop :=
  Relation.ReflTransGen (Change cfg now scope r)

namespace BrokerState

variable {cfg : Config} {now : ℕ} {scope : ResourceScope} {r : Request} {s : BrokerState}

/-! ### Expiry -/

@[simp] theorem probes_incrementServiceVersion (serviceId : JsString) (scope : ResourceScope)
    (s : BrokerState) : (s.incrementServiceVersion serviceId scope).probes = s.probes := rfl

/-- An expiry writes to the probes only when it is due. -/
theorem probes_expireProbe (cfg : Config) (now : ℕ) (s : BrokerState) (e : JsString × StoredProbe) :
    (s.expireProbe cfg now e).probes =
      if e.2.due now then s.probes.set e.1 e.2.markExpired else s.probes := by
  unfold expireProbe
  split <;> rfl

/-- What holds before an expiry and is kept by every single expiration holds
after it.  The entries still to be looked at are untouched, since each key is
met once. -/
theorem expireDueProbes_induction {P : BrokerState → Prop} (base : P s)
    (step : ∀ t (e : JsString × StoredProbe), P t → e ∈ t.probes.entries → e.2.due now = true →
      P (t.expireProbe cfg now e)) :
    P (s.expireDueProbes cfg now) := by
  have key : ∀ (l : List (JsString × StoredProbe)) (t : BrokerState),
      (l.map Prod.fst).Nodup → (∀ e ∈ l, e ∈ t.probes.entries) → P t →
      P (l.foldl (expireProbe cfg now) t) := by
    intro l
    induction l with
    | nil => exact fun t _ _ ht => ht
    | cons e l ih =>
      intro t hnd hmem ht
      rw [List.map_cons, List.nodup_cons] at hnd
      -- this expiry writes under its own key, which is not met again
      have hrest : ∀ e' ∈ l, e' ∈ (t.expireProbe cfg now e).probes.entries := by
        intro e' he'
        have hne : e'.1 ≠ e.1 := fun h => hnd.1 (h ▸ List.mem_map_of_mem he')
        rw [probes_expireProbe]
        split
        · exact JsMap.mem_entries_set.mpr (Or.inr ⟨hne, hmem e' (List.mem_cons_of_mem _ he')⟩)
        · exact hmem e' (List.mem_cons_of_mem _ he')
      rw [List.foldl_cons]
      refine ih _ hnd.2 hrest ?_
      by_cases hdue : e.2.due now = true
      · exact step t e ht (hmem e List.mem_cons_self) hdue
      · rwa [expireProbe, if_neg hdue]
  exact key _ _ s.probes.nodup (fun _ h => h) base

/-! ### Requests -/

theorem refresh_changes (serviceId : JsString) :
    Changes cfg now scope r s (s.refreshServiceCapabilities now scope serviceId) :=
  .single (.refresh serviceId)

/-- A refresh, and at most one creation or one that fails after the version was drawn. -/
theorem createProbe_changes (draws : ℕ → JsString) (input : CreateProbeInput) :
    Changes cfg now scope (.createProbe draws input) s
      (s.createProbe cfg now draws input scope).1 := by
  rcases hc : compileProbeInput cfg.jsep input with e | compiled
  · simp only [createProbe, hc]
    exact .refl
  have hr : Changes cfg now scope (.createProbe draws input) s
    (s.refreshServiceCapabilities now scope input.serviceId) := refresh_changes _
  simp only [createProbe, hc]
  -- the refresh came first, whatever follows
  generalize s.refreshServiceCapabilities now scope input.serviceId = t at hr ⊢
  split
  · exact hr
  split
  · exact hr
  next id hid =>
  split
  · split
    · exact hr.tail (.failCreate draws input rfl)
    · next probe hp => exact hr.tail (.create draws input compiled id probe rfl hc hid hp)
  · exact hr

/-- A deletion is at most one change. -/
theorem deleteProbe_change (id : JsString) :
    (s.deleteProbe now id scope).1 = s ∨
      Change cfg now scope (.deleteProbe id) s (s.deleteProbe now id scope).1 := by
  rcases hf : s.probes.get? id with - | stored
  · left
    simp only [deleteProbe, hf]
  simp only [deleteProbe, hf]
  split
  · next hown =>
    by_cases hx : stored.expired = true
    · simp only [hx, if_true]
      exact Or.inr (.deleteExpired id stored rfl hf hown hx)
    · rw [Bool.not_eq_true] at hx
      simp only [hx, hown]
      exact Or.inr (.deleteLive id stored rfl hf hown hx)
  · exact Or.inl rfl

theorem deleteProbe_changes (id : JsString) :
    Changes cfg now scope (.deleteProbe id) s (s.deleteProbe now id scope).1 := by
  obtain h | h : _ ∨ Change cfg now scope (.deleteProbe id) s _ := deleteProbe_change id
  · rw [h]
  · exact .single h

/-- Asking for the state of a set that is incomplete claims its lease. -/
theorem sourceMapStatus_changes (serviceId commitSha uploaderId : JsString) :
    Changes cfg now scope (.sourceMapStatus serviceId commitSha uploaderId) s
      (s.sourceMapStatus now serviceId commitSha uploaderId scope).1 := by
  simp only [sourceMapStatus]
  split
  · exact .refl
  · next hinc =>
    split
    · exact .single (.claim serviceId commitSha uploaderId rfl (by simpa using hinc))
    · exact .refl

/-- Only the holder of the lease passes, and the lease is renewed. -/
theorem assertSourceMapUploader_eq_ok {serviceId commitSha uploaderId : JsString}
    {t : BrokerState}
    (h : s.assertSourceMapUploader now serviceId commitSha uploaderId scope = .ok t) :
    holdsLease now uploaderId (s.sourceMapLeases.get? (sourceMapKey scope serviceId commitSha)) =
        true ∧
      t = s.grantLease now (sourceMapKey scope serviceId commitSha) uploaderId := by
  simp only [assertSourceMapUploader] at h
  split at h
  · next hh => exact ⟨hh, (Except.ok.inj h).symm⟩
  · cases h

/-- The lease is renewed before the map is looked at. -/
theorem uploadSourceMap_changes (input : SourceMapUpload) :
    Changes cfg now scope (.uploadSourceMap input) s
      (s.uploadSourceMap cfg now input scope).1 := by
  unfold uploadSourceMap
  split
  · exact .refl
  · next t ht =>
    obtain ⟨hh, rfl⟩ := assertSourceMapUploader_eq_ok ht
    have hr : Change cfg now scope (.uploadSourceMap input) s _ :=
      .renew input.serviceId input.commitSha input.uploaderId hh
    split
    · refine .tail (.single hr) (.upload input rfl ?_)
      simp [grantLease, JsMap.has]
    · -- the lease stays renewed when the map is refused
      exact .single hr

/-- A completion renews the lease and marks the set. -/
theorem completeSourceMaps_changes (serviceId commitSha uploaderId : JsString) :
    Changes cfg now scope (.completeSourceMaps serviceId commitSha uploaderId) s
      (s.completeSourceMaps cfg now serviceId commitSha uploaderId scope).1 := by
  unfold completeSourceMaps
  split
  · exact .refl
  · next t ht =>
    obtain ⟨hh, rfl⟩ := assertSourceMapUploader_eq_ok ht
    exact .tail (.single (.renew serviceId commitSha uploaderId hh))
      (.complete serviceId commitSha uploaderId rfl rfl)

/-- Every event of a batch that passes has passed by itself. -/
theorem checkEvents_eq_ok {input : IngestInput} {l : List ProbeEvent}
    (h : checkEvents input scope s l = .ok ()) :
    ∀ e ∈ l, checkEvent input scope (s.probes.get? e.probeId) e = .ok () := by
  induction l with
  | nil => simp
  | cons e l ih =>
    simp only [checkEvents] at h
    split at h
    · cases h
    · next he =>
      rintro a (- | ⟨_, ha⟩)
      · exact he
      · exact ih h a ha

/-- An event changes no definition. -/
@[simp] theorem probes_ingestEvent (s : BrokerState) (e : ProbeEvent) :
    (s.ingestEvent cfg e).probes = s.probes := by
  simp only [ingestEvent]
  split <;> rfl

/-- The checks were made before any event: no event undoes that of a later one. -/
theorem ingestEvents_changes {input : IngestInput} {l : List ProbeEvent}
    (hl : ∀ e ∈ l, e ∈ input.events)
    (h : ∀ e ∈ l, checkEvent input scope (s.probes.get? e.probeId) e = .ok ()) :
    Changes cfg now scope (.ingest input) s (l.foldl (ingestEvent cfg) s) := by
  induction l generalizing s with
  | nil => exact .refl
  | cons e l ih =>
    rw [List.foldl_cons]
    refine .head (.event input e rfl (hl e List.mem_cons_self) (h e List.mem_cons_self))
      (ih (fun e' he' => hl e' (List.mem_cons_of_mem _ he')) fun e' he' => ?_)
    rw [probes_ingestEvent]
    exact h e' (List.mem_cons_of_mem _ he')

/-- Expiry, the report of the agent, then the events one by one. -/
theorem ingest_changes (input : IngestInput) :
    Changes cfg now scope (.ingest input) s (s.ingest cfg now input scope).1 := by
  have hx : Changes cfg now scope (.ingest input) s (s.expireDueProbes cfg now) := .single .expire
  unfold ingest
  simp only
  split
  · exact hx
  · next hok =>
    refine (hx.tail (.report input rfl)).trans (ingestEvents_changes (fun _ h => h) fun e he => ?_)
    exact checkEvents_eq_ok hok e he

/-- What is accepted was sent, about a probe that is stored. -/
theorem acceptNativeEvents_eq_ok {input : NativeIngestEnvelope} {l accepted : List ProbeEvent}
    (h : s.acceptNativeEvents input scope l = .ok accepted) :
    ∀ e ∈ accepted, e ∈ l ∧ ∃ stored, s.probes.get? e.probeId = some stored ∧
      checkNativeEvent input scope stored e = .ok () := by
  induction l generalizing accepted with
  | nil =>
    obtain rfl := Except.ok.inj h
    simp
  | cons e l ih =>
    simp only [acceptNativeEvents] at h
    split at h
    · split at h
      · -- an event about a probe that was just removed is passed over
        exact fun a ha => (ih h a ha).imp_left (List.mem_cons_of_mem _)
      · cases h
    · next stored hs =>
      split at h
      · cases h
      · next hok =>
        cases hrest : s.acceptNativeEvents input scope l with
        | error err => rw [hrest] at h; cases h
        | ok rest =>
          rw [hrest] at h
          obtain rfl := Except.ok.inj h
          rintro a (- | ⟨_, ha⟩)
          · exact ⟨List.mem_cons_self, stored, hs, hok⟩
          · exact (ih hrest a ha).imp_left (List.mem_cons_of_mem _)

@[simp] theorem probes_deriveNativeLogicalStatus (id : JsString) (s : BrokerState) :
    (s.deriveNativeLogicalStatus id scope).probes = s.probes := by
  unfold deriveNativeLogicalStatus
  repeat' split
  all_goals rfl

@[simp] theorem nativeInstances_deriveNativeLogicalStatus (id : JsString) (s : BrokerState) :
    (s.deriveNativeLogicalStatus id scope).nativeInstances = s.nativeInstances := by
  unfold deriveNativeLogicalStatus
  repeat' split
  all_goals rfl

@[simp] theorem probes_ingestNativeEvent (input : NativeIngestEnvelope) (s : BrokerState)
    (e : ProbeEvent) : (s.ingestNativeEvent cfg scope input e).probes = s.probes := by
  simp only [ingestNativeEvent]
  split
  · rfl
  · simp only [recordNativeStatus]
    split
    · rfl
    · rw [probes_deriveNativeLogicalStatus]
      rfl

@[simp] theorem nativeInstances_ingestNativeEvent (input : NativeIngestEnvelope) (s : BrokerState)
    (e : ProbeEvent) :
    (s.ingestNativeEvent cfg scope input e).nativeInstances = s.nativeInstances := by
  simp only [ingestNativeEvent]
  split
  · rfl
  · simp only [recordNativeStatus]
    split
    · rfl
    · rw [nativeInstances_deriveNativeLogicalStatus]
      rfl

/-- The probes and the instance an event was checked against are those it meets. -/
theorem nativeEvents_changes {input : NativeIngestEnvelope} {i : NativeInstanceRecord}
    {l : List ProbeEvent}
    (hi : s.nativeInstances.get? (nativeInstanceKey scope input.agentId input.instanceId) = some i)
    (ht : isTarget input i = true)
    (h : ∀ e ∈ l, e ∈ input.events ∧ ∃ stored, s.probes.get? e.probeId = some stored ∧
      checkNativeEvent input scope stored e = .ok ()) :
    Changes cfg now scope (.ingestNative input) s
      (l.foldl (ingestNativeEvent cfg scope input) s) := by
  induction l generalizing s with
  | nil => exact .refl
  | cons e l ih =>
    obtain ⟨hmem, stored, hs, hok⟩ := h e List.mem_cons_self
    rw [List.foldl_cons]
    refine .head (.nativeEvent input i stored e rfl hmem hi ht hs hok) (ih ?_ fun e' he' => ?_)
    · rw [nativeInstances_ingestNativeEvent]
      exact hi
    · rw [probes_ingestNativeEvent]
      exact h e' (List.mem_cons_of_mem _ he')

/-- Without its instance a batch changes nothing; with it the removed probes are pruned first. -/
theorem ingestNativeChecked_changes (input : NativeIngestEnvelope) :
    Changes cfg now scope (.ingestNative input) s
      (s.ingestNativeChecked cfg now input scope).1 := by
  unfold ingestNativeChecked
  split
  · next hany =>
    obtain ⟨i, hi, ht⟩ := (Option.any_eq_true _ _).mp hany
    have hp : Changes cfg now scope (.ingestNative input) s (s.pruneRemovedProbes now) :=
      .single .prune
    simp only
    split
    · exact hp
    · next accepted hok =>
      have hacc := acceptNativeEvents_eq_ok hok
      refine .tail ?_ (.touchNative input rfl)
      -- events that were passed over are recorded in the health
      split
      · exact hp.trans (nativeEvents_changes hi ht hacc)
      · exact (hp.tail (.health _ _)).trans (nativeEvents_changes hi ht hacc)
  · exact .refl

/-- A refused batch is counted in the health of the service. -/
theorem ingestNative_changes (input : NativeIngestEnvelope) :
    Changes cfg now scope (.ingestNative input) s (s.ingestNative cfg now input scope).1 := by
  have h : Changes cfg now scope (.ingestNative input) s
    (s.ingestNativeChecked cfg now input scope).1 := ingestNativeChecked_changes input
  unfold ingestNative
  split
  · next t _ _ _ ht =>
    rw [ht] at h
    dsimp only at h ⊢
    exact h.tail (.health input.serviceId _)
  · exact h

theorem listServices_changes :
    Changes cfg now scope r s (s.listServices cfg now scope).1 := by
  simp only [listServices]
  generalize s.scopeServices scope = l
  induction l generalizing s with
  | nil => exact .refl
  | cons service l ih => exact .head (.refresh service.serviceId) ih

/-- A record that fails its schema is not stored. -/
theorem registerNativeAgent_changes (input : NativeAgentRegistration) :
    Changes cfg now scope (.registerNativeAgent input) s
      (s.registerNativeAgent now input scope).1 := by
  rcases hp : persistedNativeAgentSchema
      { toNativeAgentRegistration := input, scope, lastSeen := IsoDate.toISOString now }
    with - | record
  · simp only [registerNativeAgent, hp]
    exact .refl
  · exact .single (.register input record rfl hp)

/-- An unknown agent or a refused instance changes nothing. -/
theorem replaceNativeInstances_changes (agentId : JsString) (instances : List NativeInstance)
    (allowed : List JsString) :
    Changes cfg now scope (.replaceNativeInstances agentId instances allowed) s
      (s.replaceNativeInstances now agentId instances scope allowed).1 := by
  rcases ha : s.nativeAgents.get? (nativeAgentKey scope agentId) with - | agent
  · simp only [replaceNativeInstances, ha]
    exact .refl
  rcases hc : checkInstances (s.ownedByAnother scope agentId) allowed [] instances with e | ⟨⟩
  · -- an instance that is not allowed, given twice or held by another agent
    simp only [replaceNativeInstances, ha, hc]
    exact .refl
  · exact .single (.replace agentId instances allowed agent rfl ha hc)

/-- **Every request is a sequence of elementary changes.** -/
theorem handle_changes (cfg : Config) (now : ℕ) (scope : ResourceScope) (r : Request)
    (s : BrokerState) : Changes cfg now scope r s (s.handle cfg now scope r).1 := by
  have hx : Changes cfg now scope r s (s.expireDueProbes cfg now) := .single .expire
  cases r with
  | createProbe draws input => exact createProbe_changes draws input
  | deleteProbe id => exact deleteProbe_changes id
  | listProbes serviceId => exact hx
  | getProbe id => exact hx
  | getEvents id => exact hx
  | getStatus id => exact hx
  | pollProbes serviceId since commitSha => exact hx.tail (.touch serviceId since commitSha rfl)
  | sourceMapStatus serviceId commitSha uploaderId =>
    exact sourceMapStatus_changes serviceId commitSha uploaderId
  | uploadSourceMap input => exact uploadSourceMap_changes input
  | completeSourceMaps serviceId commitSha uploaderId =>
    exact completeSourceMaps_changes serviceId commitSha uploaderId
  | getSourceMapSet serviceId commitSha => exact .refl
  | ingest input => exact ingest_changes input
  | registerNativeAgent input => exact registerNativeAgent_changes input
  | replaceNativeInstances agentId instances allowed =>
    exact replaceNativeInstances_changes agentId instances allowed
  | nativeAssignments agentId since allowed =>
    simp only [handle, answer, nativeAssignments]
    split
    · exact hx
    · exact .refl
  | ingestNative input => exact ingestNative_changes input
  | listServices => exact listServices_changes

end BrokerState
