/-
LiveProbe/NativeStatus.lean

What a batch of a native agent does to the state, and what the logical status
of a probe is derived from.

A batch that is accepted is a fold over the events that were kept
(`ingestNative_batch`).  A derivation takes one of the statuses of the
instances, an armed one if there is any (`derivedStatus_eq_some`), and gives it
the instant the probe was first armed (`deriveNativeArmedAt_first`).
-/
import LiveProbe.Records

open JsString Broker BrokerState

namespace BrokerState

variable {cfg : Config} {now : ℕ} {scope : ResourceScope} {s : BrokerState}

/-! ### Batches -/

/-- The state before the events of a batch that is accepted, and the events
that are kept. -/
def nativeBatch (now : ℕ) (scope : ResourceScope) (input : NativeIngestEnvelope) (s : BrokerState) :
    Option (BrokerState × List ProbeEvent) :=
  if (s.nativeInstances.get? (nativeInstanceKey scope input.agentId input.instanceId)).any
      (isTarget input) then
    let s := s.pruneRemovedProbes now
    match s.acceptNativeEvents input scope input.events with
    | .error _ => none
    | .ok accepted =>
      let skipped := input.events.length - accepted.length
      some (if skipped = 0 then s
        else s.recordHealth scope input.serviceId fun h =>
          { h with staleEventsDropped := h.staleEventsDropped + skipped }, accepted)
  else none

/-- Before the events only what was removed and the health of the service change. -/
theorem nativeBatch_eq_some {input : NativeIngestEnvelope} {t : BrokerState}
    {accepted : List ProbeEvent} (h : s.nativeBatch now scope input = some (t, accepted)) :
    (∃ removed health, t = { s with recentlyRemovedProbes := removed, nativeIngestHealth := health }) ∧
      (∃ i, s.nativeInstances.get? (nativeInstanceKey scope input.agentId input.instanceId) = some i ∧
        isTarget input i = true) ∧
      ∀ e ∈ accepted, e ∈ input.events ∧ ∃ stored, s.probes.get? e.probeId = some stored ∧
        checkNativeEvent input scope stored e = .ok () := by
  unfold nativeBatch at h
  split at h
  · next hany =>
    dsimp only at h
    split at h
    · cases h
    · next accepted' hok =>
      obtain ⟨ht, rfl⟩ := Prod.mk.inj (Option.some.inj h)
      have hkept := acceptNativeEvents_eq_ok hok
      refine ⟨?_, (Option.any_eq_true _ _).mp hany, hkept⟩
      rw [← ht]
      split <;> exact ⟨_, _, rfl⟩
  · cases h

/-- **A batch is rejected as a whole, or its events are stored one after another.** -/
theorem ingestNative_batch (cfg : Config) (now : ℕ) (scope : ResourceScope)
    (input : NativeIngestEnvelope) (s : BrokerState) :
    (s.nativeBatch now scope input = none ∧ ∃ removed health,
      (s.ingestNative cfg now input scope).1 =
        { s with recentlyRemovedProbes := removed, nativeIngestHealth := health }) ∨
      ∃ t accepted, s.nativeBatch now scope input = some (t, accepted) ∧
        s.ingestNative cfg now input scope =
          ((accepted.foldl (ingestNativeEvent cfg scope input) t).touchNativeService now scope input,
            .ok accepted.length) := by
  by_cases hany : (s.nativeInstances.get? (nativeInstanceKey scope input.agentId
      input.instanceId)).any (isTarget input) = true
  · simp only [nativeBatch, ingestNative, ingestNativeChecked, if_pos hany]
    rcases (s.pruneRemovedProbes now).acceptNativeEvents input scope input.events with e | accepted
    · left
      refine ⟨rfl, ?_⟩
      cases e <;> exact ⟨_, _, rfl⟩
    · exact .inr ⟨_, accepted, rfl, rfl⟩
  · left
    simp only [nativeBatch, ingestNative, ingestNativeChecked, if_neg hany]
    exact ⟨trivial, _, _, rfl⟩

/-! ### What a derivation reads -/

/-- The instance an event is from has its status read. -/
theorem mem_instanceStatuses {stored : StoredProbe} {id : JsString} {status : Option ProbeStatus} :
    status ∈ s.instanceStatuses scope stored id ↔
      ∃ i ∈ s.nativeInstances.values, i.scope = scope ∧ i.serviceId = stored.probe.serviceId ∧
        s.nativeStatuses.get? (nativeStatusKey scope id stored.probe.version i.agentId i.instanceId
          i.buildId) = status := by
  simp only [instanceStatuses, List.mem_map, List.mem_filter, Bool.and_eq_true, decide_eq_true_eq,
    and_assoc]

/-- The instant a probe was first armed is carried over. -/
theorem deriveNativeArmedAt_carried {id ts : JsString} {l : List ProbeStatus}
    (h : (s.statuses.get? id).bind (·.armedAt) = some ts) :
    s.deriveNativeArmedAt id l = some ts := by
  rw [deriveNativeArmedAt, h]

theorem deriveNativeArmedAt_none {id : JsString} {l : List ProbeStatus}
    (h : (s.statuses.get? id).bind (·.armedAt) = none) (hl : ∀ status ∈ l, status.status ≠ .armed) :
    s.deriveNativeArmedAt id l = none := by
  have hfilter : l.filter (fun status => status.status = .armed) = [] := by
    rw [List.filter_eq_nil_iff]
    intro status hmem
    simpa using hl status hmem
  rw [deriveNativeArmedAt, h, hfilter]
  rfl

/-- Where all armed statuses are of one instant, that is when the probe was armed. -/
theorem deriveNativeArmedAt_first {id ts : JsString} {l : List ProbeStatus}
    (h : (s.statuses.get? id).bind (·.armedAt) = none)
    (hl : ∀ status ∈ l, status.status = .armed → status.updatedAt = ts)
    (harmed : ∃ status ∈ l, status.status = .armed) :
    s.deriveNativeArmedAt id l = some ts := by
  obtain ⟨armed, hmem, hname⟩ := harmed
  have hlist : ∀ status ∈ l.filter (fun status => status.status = .armed), status.updatedAt = ts := by
    intro status hstatus
    obtain ⟨hs, hname⟩ := List.mem_filter.mp hstatus
    exact hl status hs (of_decide_eq_true hname)
  have hne : armed ∈ l.filter (fun status => status.status = .armed) :=
    List.mem_filter.mpr ⟨hmem, decide_eq_true hname⟩
  rw [deriveNativeArmedAt, h]
  dsimp only
  generalize l.filter (fun status => status.status = .armed) = l' at hlist hne
  cases l' with
  | nil => cases hne
  | cons status l' =>
    rw [List.foldl_cons]
    -- from the first armed status on, the fold stays at its instant
    apply List.foldlRecOn (motive := fun earliest => earliest = some ts)
    · exact congrArg some (hlist status List.mem_cons_self)
    · rintro _ rfl status' hs
      simp only [hlist status' (List.mem_cons_of_mem _ hs), ite_self]

theorem latestStatus_of_ne_nil {l : List ProbeStatus} (h : l ≠ []) :
    ∃ status, latestStatus l = some status := by
  have hlen : (l.mergeSort fun l r => !dateLt l.updatedAt r.updatedAt) ≠ [] := by
    intro hnil
    exact h (List.length_eq_zero_iff.mp ((List.length_mergeSort _).symm.trans (congrArg _ hnil)))
  exact Option.isSome_iff_exists.mp (by rw [latestStatus, List.isSome_head?]; simpa using hlen)

/-- The statuses the instances of a probe's service have reported. -/
def reported (s : BrokerState) (scope : ResourceScope) (stored : StoredProbe) (probeId : JsString) :
    List ProbeStatus :=
  (s.instanceStatuses scope stored probeId).filterMap fun status => status

theorem mem_reported {stored : StoredProbe} {probeId : JsString} {status : ProbeStatus} :
    status ∈ s.reported scope stored probeId ↔ some status ∈ s.instanceStatuses scope stored probeId := by
  rw [reported, List.mem_filterMap]
  exact ⟨fun ⟨_, hmem, h⟩ => h ▸ hmem, fun h => ⟨_, h, rfl⟩⟩

/-- A derived status is one of those reported, an armed one if there is any, with
the instant the probe was first armed. -/
theorem derivedStatus_eq_some {stored : StoredProbe} {probeId : JsString} {status : ProbeStatus}
    (h : s.derivedStatus scope stored probeId = some status) :
    ∃ chosen ∈ s.reported scope stored probeId, status.status = chosen.status ∧
      ((∃ armed ∈ s.reported scope stored probeId, armed.status = .armed) → chosen.status = .armed) ∧
      status.armedAt =
        (s.deriveNativeArmedAt probeId (s.reported scope stored probeId)).or chosen.armedAt := by
  obtain ⟨chosen, hchosen, hstatus⟩ := Option.map_eq_some_iff.mp h
  have hreported : (s.instanceStatuses scope stored probeId).filterMap id = s.reported scope stored probeId := rfl
  rw [hreported] at hstatus
  refine ⟨chosen, ?_, ?_, ?_, ?_⟩
  · split at hchosen
    · exact (List.mem_filter.mp (latestStatus_mem hchosen)).1
    · exact latestStatus_mem hchosen
  · rw [← hstatus]
    split <;> rfl
  · rintro ⟨armed, hmem, hname⟩
    split at hchosen
    · exact of_decide_eq_true (List.mem_filter.mp (latestStatus_mem hchosen)).2
    · next hnone =>
      rw [Bool.or_eq_true, not_or] at hnone
      have hne : armed ∈ (s.reported scope stored probeId).filter fun status => status.status = .armed :=
        List.mem_filter.mpr ⟨hmem, decide_eq_true hname⟩
      exact absurd (decide_eq_true (List.ne_nil_of_mem hne)) hnone.2
  · rw [← hstatus]
    rcases s.deriveNativeArmedAt probeId (s.reported scope stored probeId) with - | ts <;> rfl

/-- Where an instance is armed there is a derived status. -/
theorem derivedStatus_of_armed {stored : StoredProbe} {probeId : JsString} {armed : ProbeStatus}
    (hmem : armed ∈ s.reported scope stored probeId) (hname : armed.status = .armed) :
    ∃ status, s.derivedStatus scope stored probeId = some status ∧ status.status = .armed := by
  have hne : (s.reported scope stored probeId).filter (fun status => status.status = .armed) ≠ [] :=
    List.ne_nil_of_mem (List.mem_filter.mpr ⟨hmem, decide_eq_true hname⟩)
  obtain ⟨chosen, hchosen⟩ := latestStatus_of_ne_nil hne
  have hsome : (s.derivedStatus scope stored probeId).isSome = true := by
    unfold derivedStatus
    rw [Option.isSome_map]
    show (if _ then latestStatus ((s.reported scope stored probeId).filter _) else _).isSome = true
    rw [if_pos, hchosen]
    · rfl
    · rw [Bool.or_eq_true]
      exact .inr (decide_eq_true hne)
  obtain ⟨status, hstatus⟩ := Option.isSome_iff_exists.mp hsome
  obtain ⟨chosen, -, hsame, harmed, -⟩ := derivedStatus_eq_some hstatus
  exact ⟨status, hstatus, hsame.trans (harmed ⟨armed, hmem, hname⟩)⟩

/-! ### Recording -/

/-- An instance determines where its statuses are recorded. -/
theorem nativeStatusKey_congr {a b : ResourceScope} {x y x' y' : JsString}
    (h : nativeInstanceKey a x y = nativeInstanceKey b x' y') (probeId : JsString) (version : ℕ)
    (buildId : JsString) :
    a = b ∧ nativeStatusKey a probeId version x y buildId =
      nativeStatusKey b probeId version x' y' buildId := by
  simp only [nativeInstanceKey, nativeAgentKey, List.append_assoc, List.cons_append] at h
  obtain ⟨rfl, hids⟩ := scopeKey_append_inj h
  refine ⟨rfl, ?_⟩
  have hparts : ∀ x y : JsString, x ++ nul :: (y ++ nul :: buildId) = (x ++ nul :: y) ++ nul :: buildId := by
    intro x y
    rw [List.append_assoc, List.cons_append]
  simp only [nativeStatusKey, hparts, hids]

/-- The probe a key of native statuses names. -/
theorem splitNul_statusKeyOf {input : NativeIngestEnvelope} {e : ProbeEvent} (h : nul ∉ e.probeId) :
    (splitNul (statusKeyOf scope input e))[1]? = some e.probeId := by
  rw [statusKeyOf, nativeStatusKey, splitNul_append (nul_notMem_resourceScopeKey scope),
    splitNul_append h]
  rfl

/-- A status that was recorded is read when the logical status is derived. -/
theorem mem_reported_withNativeStatus {L : Limits} (h : s.nativeInstances.All (InstanceOk L))
    {input : NativeIngestEnvelope} {i : NativeInstanceRecord} {stored : StoredProbe} {e : ProbeEvent}
    (hi : s.nativeInstances.get? (nativeInstanceKey scope input.agentId input.instanceId) = some i)
    (ht : isTarget input i = true) (hchecked : checkNativeEvent input scope stored e = .ok ())
    (status : ProbeStatus) :
    status ∈ (s.withNativeStatus scope input (statusKeyOf scope input e) status).reported scope stored
      e.probeId := by
  obtain ⟨-, hservice, hversion⟩ := checkNativeEvent_eq_ok hchecked
  rw [isTarget, Bool.and_eq_true, decide_eq_true_eq, decide_eq_true_eq] at ht
  obtain ⟨hscope, hkey⟩ := nativeStatusKey_congr (h _ _ hi).key e.probeId stored.probe.version
    input.buildId
  refine mem_reported.mpr (mem_instanceStatuses.mpr ⟨i, ?_, hscope.symm, ht.1.trans hservice.symm, ?_⟩)
  · exact JsMap.mem_values_iff.mpr ⟨_, JsMap.get?_eq_some_iff.mp hi⟩
  · have hsame : nativeStatusKey scope e.probeId stored.probe.version i.agentId i.instanceId i.buildId =
        statusKeyOf scope input e := by
      rw [statusKeyOf, hversion, Option.getD_some, hkey, ht.2, hscope]
    rw [hsame]
    exact JsMap.get?_set_self ..

/-- What is derived for a probe that exists. -/
theorem deriveNativeLogicalStatus_of_stored {id : JsString} {stored : StoredProbe}
    (hstored : s.probes.get? id = some stored) (hscope : stored.scope = scope) :
    s.deriveNativeLogicalStatus id scope =
      if stored.expired then s
      else match s.derivedStatus scope stored id with
        | none => s
        | some status => { s with statuses := s.statuses.set id status } := by
  have hown : s.ownProbe id scope = some stored := by
    rw [ownProbe, hstored, Option.filter_some, if_pos (decide_eq_true hscope)]
  unfold deriveNativeLogicalStatus
  generalize s.ownProbe id scope = own at hown ⊢
  subst hown
  rfl

@[simp] theorem nativeStatuses_deriveNativeLogicalStatus (id : JsString) :
    (s.deriveNativeLogicalStatus id scope).nativeStatuses = s.nativeStatuses := by
  obtain ⟨_, -, h⟩ := deriveNativeLogicalStatus_eq id scope s
  rw [h]

/-- A status that is outlasted is not recorded. -/
theorem ingestNativeEvent_of_kept {input : NativeIngestEnvelope} {e : ProbeEvent}
    {status : ProbeStatus} (hstatus : nativeStatusOf e = some status)
    (h : (s.nativeStatuses.get? (statusKeyOf scope input e)).any (keepsPrevious status) = true) :
    s.ingestNativeEvent cfg scope input e = s.appendEvent cfg e := by
  simp only [ingestNativeEvent, hstatus, recordNativeStatus]
  exact if_pos h

theorem ingestNativeEvent_of_new {input : NativeIngestEnvelope} {e : ProbeEvent}
    {status : ProbeStatus} (hstatus : nativeStatusOf e = some status)
    (h : (s.nativeStatuses.get? (statusKeyOf scope input e)).any (keepsPrevious status) = false) :
    s.ingestNativeEvent cfg scope input e =
      ((s.appendEvent cfg e).withNativeStatus scope input (statusKeyOf scope input e)
        status).deriveNativeLogicalStatus e.probeId scope := by
  simp only [ingestNativeEvent, hstatus, recordNativeStatus]
  exact if_neg (by rw [Bool.not_eq_true]; exact h)

/-- Where all events pass their checks none is left out. -/
theorem acceptNativeEvents_all {input : NativeIngestEnvelope} {l : List ProbeEvent}
    (h : ∀ e ∈ l, ∃ stored, s.probes.get? e.probeId = some stored ∧
      checkNativeEvent input scope stored e = .ok ()) :
    s.acceptNativeEvents input scope l = .ok l := by
  induction l with
  | nil => rfl
  | cons e l ih =>
    obtain ⟨stored, hstored, hok⟩ := h e List.mem_cons_self
    simp only [acceptNativeEvents, hstored, hok, ih fun e' he' => h e' (List.mem_cons_of_mem _ he')]
    rfl

theorem nativeBatch_of_checked {input : NativeIngestEnvelope}
    (target : (s.nativeInstances.get? (nativeInstanceKey scope input.agentId input.instanceId)).any
      (isTarget input) = true)
    (h : ∀ e ∈ input.events, ∃ stored, s.probes.get? e.probeId = some stored ∧
      checkNativeEvent input scope stored e = .ok ()) :
    ∃ t, s.nativeBatch now scope input = some (t, input.events) := by
  have haccepted : (s.pruneRemovedProbes now).acceptNativeEvents input scope input.events =
      .ok input.events := acceptNativeEvents_all h
  unfold nativeBatch
  rw [if_pos target]
  dsimp only
  rw [haccepted]
  exact ⟨_, rfl⟩

/-- The events leave the probes and the instances as they are. -/
theorem frame_ingestNativeEvents (cfg : Config) (scope : ResourceScope) (input : NativeIngestEnvelope)
    (l : List ProbeEvent) (s : BrokerState) :
    (l.foldl (ingestNativeEvent cfg scope input) s).probes = s.probes ∧
      (l.foldl (ingestNativeEvent cfg scope input) s).nativeInstances = s.nativeInstances := by
  induction l generalizing s with
  | nil => exact ⟨rfl, rfl⟩
  | cons e l ih =>
    obtain ⟨hprobes, hinstances⟩ := ih (s.ingestNativeEvent cfg scope input e)
    exact ⟨hprobes.trans (probes_ingestNativeEvent input s e),
      hinstances.trans (nativeInstances_ingestNativeEvent input s e)⟩

end BrokerState
