/-
LiveProbe/ScopedRequests.lean

The requests of a scope, on the restriction of the state to the scope.

For each method: restricting commutes with it, and its answer is the same
(`createProbe_restrict` and the like, gathered in `handle_restrict`).  The
removed probes are the exception.  They are remembered by identifier only and
forgotten by whatever native batch comes next, so the restriction carries its
own, and the two agree on what is still remembered (`Remembers`).
-/
import LiveProbe.Restriction
import LiveProbe.NativeInstances

open JsString Broker BrokerState Protocol

namespace BrokerState

variable {sc scope : ResourceScope} {owner : JsString → ResourceScope} {removed : JsMap JsString ℕ}
  {s : BrokerState} {cfg : Config} {now : ℕ}

/-! ### The invariant is kept -/

/-- Only these four maps are spoken of. -/
theorem Placed.congr {t : BrokerState} (h : Placed owner s) (hp : t.probes = s.probes)
    (hs : t.services = s.services) (hm : t.sourceMapSets = s.sourceMapSets)
    (hi : t.nativeInstances = s.nativeInstances) : Placed owner t :=
  ⟨hp ▸ h.probes, hs ▸ h.services, hm ▸ h.sourceMapSets, hi ▸ h.nativeInstances⟩

theorem Placed.expireDueProbes (h : Placed owner s) (cfg : Config) (now : ℕ) :
    Placed owner (s.expireDueProbes cfg now) :=
  expireDueProbes_induction h fun _ e ht he _ => ht.expireProbe (ht.probes e.1 e.2 (JsMap.get?_eq_some_iff.mpr he))

/-- A refresh writes to a service of its scope. -/
theorem Placed.refresh (h : Placed owner s) (serviceId : JsString) :
    Placed owner (s.refreshServiceCapabilities now sc serviceId) := by
  rcases refreshServiceCapabilities_eq now sc serviceId s with heq | ⟨service, _, hget, -, heq⟩
  · rwa [heq]
  · rw [heq]
    exact { h with services := h.services.set (h.services _ service hget) }

theorem Placed.touchService (h : Placed owner s) (serviceId : JsString) :
    Placed owner (s.touchService now serviceId none none none none scope none) :=
  { h with services := h.services.set (by simp) }

theorem Placed.recordHealth (h : Placed owner s) (serviceId : JsString)
    (f : NativeIngestHealth → NativeIngestHealth) : Placed owner (s.recordHealth sc serviceId f) :=
  h.congr rfl rfl rfl rfl

/-! ### Probes -/

/-- Whether an identifier names a probe of the scope is seen in the restriction. -/
theorem ownProbe_restrict (h : Placed owner s) (id : JsString) :
    (s.restrict owner sc removed).ownProbe id sc = s.ownProbe id sc := by
  have hprobes : (s.restrict owner sc removed).probes = part (ownId owner sc) s.probes := rfl
  simp only [ownProbe, hprobes]
  by_cases hown : owner id = sc
  · rw [get?_part (ownId_of hown)]
  · rw [part, JsMap.get?_filter_of_neg (ownId_of_ne hown)]
    rcases hg : s.probes.get? id with - | stored
    · rfl
    · have hscope : stored.scope ≠ sc := (h.probes id stored hg).2 ▸ hown
      rw [Option.filter_some, decide_eq_false hscope]
      rfl

/-- Whoever asks for probes of the scope finds all of them. -/
theorem probes_values_restrict (h : Placed owner s) {q : StoredProbe → Bool}
    (hq : ∀ p, q p = true → p.scope = sc) :
    (s.restrict owner sc removed).probes.values.filter q = s.probes.values.filter q :=
  JsMap.filter_values_filter fun k p hk hqp => ownId_of ((h.probes k p hk).2.trans (hq p hqp))

theorem activeProbes_restrict (h : Placed owner s) (serviceId : JsString) :
    (s.restrict owner sc removed).activeProbes sc serviceId = s.activeProbes sc serviceId := by
  rw [activeProbes, probes_values_restrict h fun p hp => ?_, activeProbes]
  rw [Bool.and_eq_true, Bool.and_eq_true, decide_eq_true_eq] at hp
  exact hp.1.1

theorem completeMaps_restrict (serviceId commitSha : JsString) :
    (s.restrict owner sc removed).completeMaps sc serviceId commitSha =
      s.completeMaps sc serviceId commitSha := by
  simp only [completeMaps, restrict]
  rw [get?_part (by simp)]

/-- A poll reads versions, probes and complete maps of its scope. -/
theorem pollAnswer_restrict (h : Placed owner s) (serviceId : JsString) (since : ℤ)
    (commitSha : Option JsString) :
    (s.restrict owner sc removed).pollAnswer cfg serviceId since commitSha sc =
      s.pollAnswer cfg serviceId since commitSha sc := by
  have hmaps : (s.restrict owner sc removed).completeMaps sc serviceId = s.completeMaps sc serviceId :=
    funext fun commitSha => completeMaps_restrict serviceId commitSha
  simp only [pollAnswer, located, serviceVersion_restrict, activeProbes_restrict h, hmaps]

/-- A probe that is found in a scope is owned by it. -/
theorem owner_of_ownProbe (h : Placed owner s) {id : JsString} {stored : StoredProbe}
    (hg : s.ownProbe id sc = some stored) : owner id = sc := by
  obtain ⟨hget, hscope⟩ := Option.filter_eq_some_iff.mp hg
  exact (h.probes id stored hget).2.trans (of_decide_eq_true hscope)

/-- Both sides expire first: the scope's probes are the same ones after it. -/
theorem listProbes_restrict (h : Placed owner s) (serviceId : Option JsString) :
    (s.restrict owner sc removed).listProbes cfg now serviceId sc =
      Prod.map (restrict owner sc removed) id (s.listProbes cfg now serviceId sc) := by
  simp only [listProbes, ← restrict_expireDueProbes h]
  have hx := h.expireDueProbes cfg now
  generalize s.expireDueProbes cfg now = t at hx
  have hvalues : ((t.restrict owner sc removed).probes.values.filter fun stored =>
      stored.scope = sc && (serviceId.all fun id => stored.probe.serviceId = id)) =
      t.probes.values.filter fun stored =>
        stored.scope = sc && (serviceId.all fun id => stored.probe.serviceId = id) :=
    probes_values_restrict hx fun p hp => by
      rw [Bool.and_eq_true, decide_eq_true_eq] at hp
      exact hp.1
  rw [hvalues, Prod.map_apply]
  congr 1
  refine List.map_congr_left fun stored hmem => ?_
  rw [List.mem_filter, Bool.and_eq_true, decide_eq_true_eq] at hmem
  obtain ⟨k, hk⟩ := JsMap.mem_values_iff.mp hmem.1
  obtain ⟨rfl, howner⟩ := hx.probes k stored (JsMap.get?_eq_some_iff.mpr hk)
  simp only [restrict]
  rw [get?_part (ownId_of (howner.trans hmem.2.1))]

theorem getProbe_restrict (h : Placed owner s) (id : JsString) :
    (s.restrict owner sc removed).getProbe cfg now id sc =
      Prod.map (restrict owner sc removed) (fun p => p) (s.getProbe cfg now id sc) := by
  simp only [getProbe, ← restrict_expireDueProbes h, ownProbe_restrict (h.expireDueProbes cfg now)]
  rfl

/-- The events and the status of a probe are looked at once the probe is known
to be the scope's. -/
theorem getEvents_restrict (h : Placed owner s) (id : JsString) :
    (s.restrict owner sc removed).getEvents cfg now id sc =
      Prod.map (restrict owner sc removed) (fun l => l) (s.getEvents cfg now id sc) := by
  have hx := h.expireDueProbes cfg now
  simp only [getEvents, ← restrict_expireDueProbes h, ownProbe_restrict hx]
  generalize s.expireDueProbes cfg now = t at hx
  rcases ho : t.ownProbe id sc with - | stored
  · rfl
  · simp only [restrict]
    rw [get?_part (ownId_of (owner_of_ownProbe hx ho))]
    rfl

/-- The rings and the status of a probe go with its owner. -/
theorem getStatus_restrict (h : Placed owner s) (id : JsString) :
    (s.restrict owner sc removed).getStatus cfg now id sc =
      Prod.map (restrict owner sc removed) (fun p => p) (s.getStatus cfg now id sc) := by
  have hx := h.expireDueProbes cfg now
  simp only [getStatus, ← restrict_expireDueProbes h, ownProbe_restrict hx]
  generalize s.expireDueProbes cfg now = t at hx
  rcases ho : t.ownProbe id sc with - | stored
  · rfl
  · simp only [restrict]
    rw [Option.bind_some, get?_part (ownId_of (owner_of_ownProbe hx ho))]
    rfl

theorem pollProbes_restrict (h : Placed owner s) (serviceId : JsString) (since : ℤ)
    (commitSha : Option JsString) :
    (s.restrict owner sc removed).pollProbes cfg now serviceId since commitSha sc =
      Prod.map (restrict owner sc removed) id
        (s.pollProbes cfg now serviceId since commitSha sc) := by
  have hx := h.expireDueProbes cfg now
  simp only [pollProbes, ← restrict_expireDueProbes h, ← restrict_touchService]
  rw [pollAnswer_restrict (hx.touchService serviceId)]
  rfl

/-- Whether a draw is taken is seen in the part: the draws are the scope's. -/
theorem drawProbeId_restrict {draws : ℕ → JsString} (hdraws : ∀ n, owner (draws n) = sc) :
    (s.restrict owner sc removed).drawProbeId draws = s.drawProbeId draws := by
  have hhas : (fun id => !(s.restrict owner sc removed).probes.has id) ∘ draws =
      (fun id => !s.probes.has id) ∘ draws := by
    funext n
    exact congrArg (! ·) (JsMap.has_filter_of_pos (ownId_of (hdraws n)))
  rw [drawProbeId, drawProbeId, List.find?_map, List.find?_map, hhas]

/-- The new probe, its version and its counters are in the part. -/
theorem restrict_insertProbe {probe : ProbeDefinition} (h : owner probe.id = sc) (scope : ResourceScope) :
    (s.insertProbe now scope probe).restrict owner sc removed =
      (s.restrict owner sc removed).insertProbe now scope probe := by
  simp only [restrict, insertProbe]
  rw [part_set_own (ownId_of h), part_set_own (ownId_of h)]

/-- The service checks of a creation look at the scope's own records. -/
theorem createProbe_restrict (h : Placed owner s) {draws : ℕ → JsString}
    (hdraws : ∀ n, owner (draws n) = sc) (input : CreateProbeInput) :
    (s.restrict owner sc removed).createProbe cfg now draws input sc =
      Prod.map (restrict owner sc removed) id (s.createProbe cfg now draws input sc) := by
  rcases hc : compileProbeInput cfg.jsep input with e | compiled
  · simp only [createProbe, hc]
    rfl
  simp only [createProbe, hc, ← restrict_refresh]
  have ht : Placed owner (s.refreshServiceCapabilities now sc input.serviceId) := h.refresh _
  generalize s.refreshServiceCapabilities now sc input.serviceId = t at ht
  have hservice : (t.restrict owner sc removed).services.get? (serviceKey sc input.serviceId) =
      t.services.get? (serviceKey sc input.serviceId) := get?_part (by simp)
  rw [hservice, drawProbeId_restrict hdraws, serviceVersion_restrict]
  rcases checkService (t.services.get? (serviceKey sc input.serviceId)) input compiled with e | ⟨⟩
  · rfl
  rcases hdraw : t.drawProbeId draws with - | id
  · rfl
  dsimp only
  rcases Protocol.isProbeId id with - | -
  · rfl
  rw [if_pos rfl, if_pos rfl, ← restrict_incrementServiceVersion ht]
  rcases hp : probeDefinitionSchema (newDefinition compiled id (t.serviceVersion sc input.serviceId + 1))
    with - | probe
  · rfl
  · have hid : owner probe.id = sc := by
      obtain ⟨n, -, hn⟩ := List.mem_map.mp (List.mem_of_find?_eq_some hdraw)
      rw [(newDefinition_parsed hp).1, ← hn]
      exact hdraws n
    dsimp only
    rw [← restrict_insertProbe hid]
    rfl

/-- The removed probe is remembered in both. -/
theorem restrict_removeProbe (id : JsString) :
    (s.removeProbe now id).restrict owner sc (removed.set id now) =
      (s.restrict owner sc removed).removeProbe now id := by
  simp only [restrict, removeProbe, part_delete_own]

/-- A deletion finds the probe in the restriction when it finds it, and then
remembers it in both. -/
theorem deleteProbe_restrict (now : ℕ) (removed : JsMap JsString ℕ) (h : Placed owner s) (id : JsString) :
    ((s.restrict owner sc removed).deleteProbe now id sc = ((s.restrict owner sc removed), false) ∧
        s.deleteProbe now id sc = (s, false)) ∨
      owner id = sc ∧ (s.restrict owner sc removed).deleteProbe now id sc =
        Prod.map (restrict owner sc (removed.set id now)) (fun b => b) (s.deleteProbe now id sc) ∧
        (s.deleteProbe now id sc).1.recentlyRemovedProbes = s.recentlyRemovedProbes.set id now := by
  have hprobes : (s.restrict owner sc removed).probes = part (ownId owner sc) s.probes := rfl
  rcases hg : s.probes.get? id with - | stored
  · left
    simp only [deleteProbe, hprobes, part, JsMap.get?_filter, hg]
    exact ⟨rfl, trivial⟩
  by_cases hscope : stored.scope = sc
  · right
    have hown : owner id = sc := (h.probes id stored hg).2.trans hscope
    simp only [deleteProbe, hprobes, get?_part (ownId_of hown), hg, hscope, if_true]
    refine ⟨hown, ?_, ?_⟩
    · rcases stored.expired with - | -
      · simp only [Bool.false_eq_true, if_false, ← restrict_incrementServiceVersion h,
          ← restrict_removeProbe]
        rfl
      · simp only [if_true, ← restrict_removeProbe]
        rfl
    · rcases stored.expired with - | - <;> rfl
  · left
    have hother : owner id ≠ sc := fun heq => hscope ((h.probes id stored hg).2.symm.trans heq)
    simp only [deleteProbe, hprobes, part, JsMap.get?_filter_of_neg (ownId_of_ne hother), hg,
      if_neg hscope]
    exact ⟨trivial, trivial⟩

/-! ### Source maps -/

/-- The lease of a set of the scope is in the part. -/
theorem restrict_grantLease (serviceId commitSha uploaderId : JsString) :
    (s.grantLease now (sourceMapKey sc serviceId commitSha) uploaderId).restrict owner sc removed =
      (s.restrict owner sc removed).grantLease now (sourceMapKey sc serviceId commitSha) uploaderId := by
  simp only [restrict, grantLease]
  rw [part_set_own (by simp)]

/-- The set of a key of the scope is in the part. -/
theorem sourceMapSet_restrict (serviceId commitSha : JsString) :
    (s.restrict owner sc removed).sourceMapSets.get? (sourceMapKey sc serviceId commitSha) =
      s.sourceMapSets.get? (sourceMapKey sc serviceId commitSha) :=
  get?_part (by simp)

theorem lease_restrict (serviceId commitSha : JsString) :
    (s.restrict owner sc removed).sourceMapLeases.get? (sourceMapKey sc serviceId commitSha) =
      s.sourceMapLeases.get? (sourceMapKey sc serviceId commitSha) :=
  get?_part (by simp)

theorem restrict_setSourceMaps (serviceId commitSha : JsString) (m : SourceMapSet) :
    ({ s with sourceMapSets := s.sourceMapSets.set (sourceMapKey sc serviceId commitSha) m }).restrict
        owner sc removed =
      { s.restrict owner sc removed with
        sourceMapSets := (s.restrict owner sc removed).sourceMapSets.set
          (sourceMapKey sc serviceId commitSha) m } := by
  simp only [restrict]
  rw [part_set_own (by simp)]

theorem restrict_clearForeignMaps (serviceId commitSha uploaderId : JsString) :
    (s.clearForeignMaps now (sourceMapKey sc serviceId commitSha) uploaderId).restrict owner sc removed =
      (s.restrict owner sc removed).clearForeignMaps now (sourceMapKey sc serviceId commitSha)
        uploaderId := by
  simp only [clearForeignMaps, sourceMapSet_restrict, lease_restrict]
  rcases s.sourceMapSets.get? (sourceMapKey sc serviceId commitSha) with - | m
  · rfl
  dsimp only
  split
  · rfl
  · exact restrict_setSourceMaps serviceId commitSha _

theorem sourceMapStatus_restrict (serviceId commitSha uploaderId : JsString) :
    (s.restrict owner sc removed).sourceMapStatus now serviceId commitSha uploaderId sc =
      Prod.map (restrict owner sc removed) id
        (s.sourceMapStatus now serviceId commitSha uploaderId sc) := by
  simp only [sourceMapStatus, sourceMapSet_restrict, lease_restrict, ← restrict_clearForeignMaps,
    ← restrict_grantLease]
  split
  · rfl
  split <;> rfl

theorem assertSourceMapUploader_restrict (serviceId commitSha uploaderId : JsString) :
    (s.restrict owner sc removed).assertSourceMapUploader now serviceId commitSha uploaderId sc =
      (s.assertSourceMapUploader now serviceId commitSha uploaderId sc).map
        (restrict owner sc removed) := by
  simp only [assertSourceMapUploader, lease_restrict, ← restrict_grantLease]
  split <;> rfl

theorem sourceMapSetOrNew_restrict (serviceId commitSha : JsString) :
    (s.restrict owner sc removed).sourceMapSetOrNew now serviceId commitSha sc =
      s.sourceMapSetOrNew now serviceId commitSha sc := by
  simp only [sourceMapSetOrNew, sourceMapSet_restrict]

theorem uploadSourceMap_restrict (input : SourceMapUpload) :
    (s.restrict owner sc removed).uploadSourceMap cfg now input sc =
      Prod.map (restrict owner sc removed) id (s.uploadSourceMap cfg now input sc) := by
  simp only [uploadSourceMap, assertSourceMapUploader_restrict]
  -- the lease decides the same on both sides
  rcases s.assertSourceMapUploader now input.serviceId input.commitSha input.uploaderId sc with e | t
  · rfl
  dsimp only [Except.map]
  split
  · simp only [addSourceMap, sourceMapSetOrNew_restrict, ← restrict_setSourceMaps]
    rfl
  · rfl

/-- The surplus of a service is among the scope's own sets. -/
theorem surplus_restrict (h : Placed owner s) (serviceId : JsString) :
    surplusSourceMaps cfg serviceId sc (s.restrict owner sc removed).sourceMapSets =
      surplusSourceMaps cfg serviceId sc s.sourceMapSets := by
  have hfilter : ((s.restrict owner sc removed).sourceMapSets.entries.filter fun e =>
      e.2.scope = sc && e.2.serviceId = serviceId) =
      s.sourceMapSets.entries.filter fun e => e.2.scope = sc && e.2.serviceId = serviceId := by
    simp only [restrict, part, JsMap.entries_filter, List.filter_filter]
    refine List.filter_congr fun e he => ?_
    have hin : inScope e.2.scope e.1 = true := h.sourceMapSets e.1 e.2 (JsMap.get?_eq_some_iff.mpr he)
    by_cases hscope : e.2.scope = sc
    · rw [hscope] at hin
      rw [hin, Bool.and_true]
    · -- a set of another scope is no part of the surplus
      rw [decide_eq_false hscope]
      rfl
  rw [surplusSourceMaps, hfilter, surplusSourceMaps]

theorem restrict_dropSourceMaps (keys : List JsString) :
    (s.dropSourceMaps keys).restrict owner sc removed =
      (s.restrict owner sc removed).dropSourceMaps keys := by
  have hpart : ∀ {α : Type} (m : JsMap JsString α),
      part (inScope sc) (keys.foldl JsMap.delete m) = keys.foldl JsMap.delete (part (inScope sc) m) := by
    intro α m
    rw [JsMap.foldl_delete, JsMap.foldl_delete, part_filter]
  rw [dropSourceMaps_eq, dropSourceMaps_eq]
  simp only [restrict, hpart]

theorem restrict_markComplete (serviceId commitSha : JsString) :
    (s.markComplete now serviceId commitSha sc).restrict owner sc removed =
      (s.restrict owner sc removed).markComplete now serviceId commitSha sc := by
  simp only [markComplete, sourceMapSetOrNew_restrict]
  simp only [restrict, part_delete_own]
  rw [part_set_own (by simp)]

theorem Placed.markComplete (h : Placed owner s) (serviceId commitSha : JsString) :
    Placed owner (s.markComplete now serviceId commitSha sc) := by
  refine { h with sourceMapSets := h.sourceMapSets.set ?_ }
  rcases hg : s.sourceMapSets.get? (sourceMapKey sc serviceId commitSha) with - | m
  · simp [sourceMapSetOrNew, hg]
  · simpa [sourceMapSetOrNew, hg] using h.sourceMapSets _ m hg

theorem completeSourceMaps_restrict (h : Placed owner s) (serviceId commitSha uploaderId : JsString) :
    (s.restrict owner sc removed).completeSourceMaps cfg now serviceId commitSha uploaderId sc =
      Prod.map (restrict owner sc removed) id
        (s.completeSourceMaps cfg now serviceId commitSha uploaderId sc) := by
  simp only [completeSourceMaps, assertSourceMapUploader_restrict]
  rcases ha : s.assertSourceMapUploader now serviceId commitSha uploaderId sc with e | t
  · rfl
  obtain ⟨-, rfl⟩ := assertSourceMapUploader_eq_ok ha
  have hgranted : Placed owner (s.grantLease now (sourceMapKey sc serviceId commitSha) uploaderId) :=
    h.congr rfl rfl rfl rfl
  have hmarked : Placed owner ((s.grantLease now (sourceMapKey sc serviceId commitSha) uploaderId).markComplete
    now serviceId commitSha sc) := hgranted.markComplete serviceId commitSha
  generalize s.grantLease now (sourceMapKey sc serviceId commitSha) uploaderId = t at hmarked
  have hraised : Placed owner ((t.markComplete now serviceId commitSha sc).incrementServiceVersion
    serviceId sc) := hmarked.congr rfl rfl rfl rfl
  dsimp only [Except.map]
  rw [← restrict_markComplete, ← restrict_incrementServiceVersion hmarked, surplus_restrict hraised,
    ← restrict_dropSourceMaps]
  rfl

/-! ### Managed ingest -/

/-- An event's check looks its probe up in the scope. -/
theorem checkEvent_restrict (h : Placed owner s) (input : IngestInput) (e : ProbeEvent) :
    checkEvent input sc ((s.restrict owner sc removed).probes.get? e.probeId) e =
      checkEvent input sc (s.probes.get? e.probeId) e := by
  have hown : (s.restrict owner sc removed).ownProbe e.probeId sc = s.ownProbe e.probeId sc :=
    ownProbe_restrict h e.probeId
  simp only [ownProbe] at hown
  simp only [checkEvent, hown]

theorem checkEvents_restrict (h : Placed owner s) (input : IngestInput) (l : List ProbeEvent) :
    checkEvents input sc (s.restrict owner sc removed) l = checkEvents input sc s l := by
  induction l with
  | nil => rfl
  | cons e l ih => simp only [checkEvents, checkEvent_restrict h, ih]

/-- An event that passed its check is of a probe of the scope. -/
theorem owner_of_checked (h : Placed owner s) {input : IngestInput} {e : ProbeEvent}
    (hok : checkEvent input sc (s.probes.get? e.probeId) e = .ok ()) : owner e.probeId = sc := by
  rcases hf : (s.probes.get? e.probeId).filter (fun p => p.scope = sc) with - | stored
  · simp only [checkEvent, hf] at hok
    cases hok
  · obtain ⟨hg, hscope⟩ := Option.filter_eq_some_iff.mp hf
    exact (h.probes _ stored hg).2.trans (of_decide_eq_true hscope)

theorem restrict_ingestEvent {e : ProbeEvent} (hown : owner e.probeId = sc) :
    (s.ingestEvent cfg e).restrict owner sc removed = (s.restrict owner sc removed).ingestEvent cfg e := by
  have hstatus : ((s.restrict owner sc removed).appendEvent cfg e).ingestedStatus e =
      (s.appendEvent cfg e).ingestedStatus e := by
    -- the status that is latched is the scope's own
    have hget : (s.restrict owner sc removed).statuses.get? e.probeId = s.statuses.get? e.probeId :=
      get?_part (ownId_of hown)
    simp only [ingestedStatus, appendEvent, hget]
  simp only [ingestEvent, hstatus]
  rcases (s.appendEvent cfg e).ingestedStatus e with - | status
  · exact restrict_appendEvent hown
  · dsimp only
    rw [restrict_setStatus hown, restrict_appendEvent hown]

theorem restrict_ingestEvents {l : List ProbeEvent} (hown : ∀ e ∈ l, owner e.probeId = sc) :
    (l.foldl (ingestEvent cfg) s).restrict owner sc removed =
      l.foldl (ingestEvent cfg) (s.restrict owner sc removed) := by
  induction l generalizing s with
  | nil => rfl
  | cons e l ih =>
    rw [List.foldl_cons, List.foldl_cons, ih fun a ha => hown a (List.mem_cons_of_mem e ha),
      restrict_ingestEvent (hown e List.mem_cons_self)]

theorem restrict_ingestAgent (input : IngestInput) :
    (s.ingestAgent now input sc).restrict owner sc removed =
      (s.restrict owner sc removed).ingestAgent now input sc := by
  simp only [ingestAgent, restrict_touchService, restrict_reportAgentCapabilities]
  rw [← restrict_reportAgentCapabilities, activeCapabilities_restrict]

theorem ingest_restrict (h : Placed owner s) (input : IngestInput) :
    (s.restrict owner sc removed).ingest cfg now input sc =
      Prod.map (restrict owner sc removed) id (s.ingest cfg now input sc) := by
  simp only [ingest, ← restrict_expireDueProbes h]
  have hx := h.expireDueProbes cfg now
  generalize s.expireDueProbes cfg now = t at hx
  rw [checkEvents_restrict hx]
  -- a refused batch has expired the probes, and no more
  rcases hc : checkEvents input sc t input.events with e | ⟨⟩
  · rfl
  · dsimp only
    rw [← restrict_ingestAgent, ← restrict_ingestEvents fun e he =>
      owner_of_checked hx (checkEvents_eq_ok hc e he)]
    rfl

/-! ### Native agents -/

theorem nativeAgent_restrict (agentId : JsString) :
    (s.restrict owner sc removed).nativeAgents.get? (nativeAgentKey sc agentId) =
      s.nativeAgents.get? (nativeAgentKey sc agentId) :=
  get?_part (by simp)

theorem registerNativeAgent_restrict (input : NativeAgentRegistration) :
    (s.restrict owner sc removed).registerNativeAgent now input sc =
      Prod.map (restrict owner sc removed) id (s.registerNativeAgent now input sc) := by
  simp only [registerNativeAgent]
  rcases persistedNativeAgentSchema
      { toNativeAgentRegistration := input, scope := sc, lastSeen := IsoDate.toISOString now }
    with - | record
  · rfl
  have hhas : (s.restrict owner sc removed).nativeAssignmentVersions.has (nativeAgentKey sc input.agentId) =
      s.nativeAssignmentVersions.has (nativeAgentKey sc input.agentId) :=
    JsMap.has_filter_of_pos (by simp)
  dsimp only
  rw [hhas, Prod.map_apply]
  congr 1
  simp only [restrict]
  rw [part_set_own (by simp)]
  split
  · rfl
  · rw [part_set_own (by simp)]

theorem agentInstances_restrict (h : Placed owner s) (agentId : JsString) :
    (s.restrict owner sc removed).agentInstances sc agentId = s.agentInstances sc agentId := by
  rw [agentInstances, instances_restrict h fun i hi => ?_, agentInstances]
  rw [Bool.and_eq_true, decide_eq_true_eq] at hi
  exact hi.1

theorem ownedByAnother_restrict (h : Placed owner s) (agentId : JsString) :
    (s.restrict owner sc removed).ownedByAnother sc agentId = s.ownedByAnother sc agentId := by
  funext instanceId
  have hown : ∀ u : BrokerState, u.ownedByAnother sc agentId instanceId =
      (u.nativeInstances.values.filter fun i => i.scope = sc).any
        fun i => i.instanceId = instanceId && i.agentId ≠ agentId := by
    intro u
    rw [List.any_filter, ownedByAnother]
    simp only [Bool.and_assoc]
  rw [hown, hown, instances_restrict h fun i hi => of_decide_eq_true hi]

theorem restrict_dropInstances (agentId : JsString) (ids : List JsString) :
    (s.dropInstances sc agentId ids).restrict owner sc removed =
      (s.restrict owner sc removed).dropInstances sc agentId ids := by
  simp only [restrict, dropInstances, part_filter]

theorem setInstances_restrict (agent : NativeAgentRecord) (agentId : JsString)
    (l : List NativeInstance) :
    (s.restrict owner sc removed).setInstances sc agent agentId l =
      Prod.map (restrict owner sc removed) id (s.setInstances sc agent agentId l) := by
  induction l generalizing s with
  | nil => rfl
  | cons i l ih =>
    unfold setInstances
    rcases persistedNativeInstanceSchema (instanceRecord sc agent agentId i) with - | record
    · rfl
    · dsimp only
      rw [← ih]
      simp only [restrict]
      rw [part_set_own (by simp)]

/-- The services of a scope are rebuilt from its own instances. -/
theorem restrict_rebuildNativeServices (h : Placed owner s) :
    (s.rebuildNativeServices sc).restrict owner sc removed =
      (s.restrict owner sc removed).rebuildNativeServices sc := by
  simp only [rebuildNativeServices, instances_restrict h fun i hi => of_decide_eq_true hi]
  simp only [restrict]
  congr 1
  rw [← part_filter]
  refine (List.foldl_hom (part (inScope sc)) fun m e => ?_).symm
  rcases nativeServiceRecord sc e.1 e.2 with - | record
  · rfl
  · exact (part_set_own (by simp) record).symm

theorem restrict_settleInstances (h : Placed owner s) (agent : NativeAgentRecord) (agentId : JsString)
    (changed : Bool) :
    (s.settleInstances now sc agent agentId changed).restrict owner sc removed =
      (s.restrict owner sc removed).settleInstances now sc agent agentId changed := by
  simp only [settleInstances]
  refine (restrict_rebuildNativeServices ?_).trans (congrArg (rebuildNativeServices sc) ?_)
  · exact h.congr rfl rfl rfl rfl
  have hbump : part (inScope sc) (bumpNativeAssignmentVersion sc s.nativeAssignmentVersions agentId) =
      bumpNativeAssignmentVersion sc (part (inScope sc) s.nativeAssignmentVersions) agentId :=
    part_bump_own [agentId] _
  simp only [restrict]
  rw [part_set_own (by simp)]
  rcases changed with - | -
  · rfl
  · rw [if_pos rfl, if_pos rfl, hbump]

/-- The instances an agent reports are set under keys of its scope. -/
theorem Placed.replaced (h : Placed owner s) (agent : NativeAgentRecord) (agentId : JsString)
    (instances : List NativeInstance) :
    Placed owner { s with nativeInstances := s.replacedInstances scope agent agentId instances } where
  probes := h.probes
  services := h.services
  sourceMapSets := h.sourceMapSets
  nativeInstances := replacedInstances_all _ (fun k i hk _ => h.nativeInstances k i hk)
    fun i _ => by simp [instanceRecord]

theorem replaceNativeInstances_restrict (h : Placed owner s) {L : Limits}
    (hagents : s.nativeAgents.All (AgentOk L)) {agentId : JsString} {instances : List NativeInstance}
    {allowed : List JsString} (hv : (Request.replaceNativeInstances agentId instances allowed).Valid) :
    (s.restrict owner sc removed).replaceNativeInstances now agentId instances sc allowed =
      Prod.map (restrict owner sc removed) id
        (s.replaceNativeInstances now agentId instances sc allowed) := by
  simp only [replaceNativeInstances, nativeAgent_restrict, ownedByAnother_restrict h,
    agentInstances_restrict h, ← restrict_dropInstances, setInstances_restrict]
  rcases hagent : s.nativeAgents.get? (nativeAgentKey sc agentId) with - | agent
  · rfl
  rcases checkInstances (s.ownedByAnother sc agentId) allowed [] instances with e | ⟨⟩
  · rfl
  -- instances that passed the checks pass the schema of a record
  have hset : (s.dropInstances sc agentId (instances.map (·.instanceId))).setInstances sc agent agentId
      instances = ({ s with nativeInstances := s.replacedInstances sc agent agentId instances }, .ok ()) :=
    setInstances_of_passes fun i hi =>
      instanceRecord_passes (hagents _ _ hagent) hv.1 ((Schema.boundedArray_self.mp hv.2).1 i hi)
  dsimp only
  rw [hset, Prod.map_apply]
  dsimp only [id]
  rw [← restrict_settleInstances (h.replaced agent agentId instances)]
  rfl

/-- The assignments of an agent are made of the scope's probes and statuses. -/
theorem desiredAssignments_restrict (h : Placed owner s) (agentId : JsString) (allowed : List JsString) :
    (s.restrict owner sc removed).desiredAssignments cfg sc agentId allowed =
      s.desiredAssignments cfg sc agentId allowed := by
  have hassign : (s.restrict owner sc removed).instanceAssignment sc agentId =
      s.instanceAssignment sc agentId := by
    funext i
    -- a terminal status is kept under a key of the scope
    have hterminal : ∀ probe : ProbeDefinition,
        (s.restrict owner sc removed).nativeTerminal probe i agentId sc =
          s.nativeTerminal probe i agentId sc := by
      intro probe
      simp only [nativeTerminal, restrict]
      rw [get?_part (by simp)]
    simp only [instanceAssignment, activeProbes_restrict h, hterminal]
  rw [desiredAssignments, agentInstances_restrict h, hassign, desiredAssignments]

theorem nativeAssignments_restrict (h : Placed owner s) (agentId : JsString) (since : ℤ)
    (allowed : List JsString) :
    (s.restrict owner sc removed).nativeAssignments cfg now agentId since sc allowed =
      Prod.map (restrict owner sc removed) id
        (s.nativeAssignments cfg now agentId since sc allowed) := by
  have hhas : (s.restrict owner sc removed).nativeAgents.has (nativeAgentKey sc agentId) =
      s.nativeAgents.has (nativeAgentKey sc agentId) := JsMap.has_filter_of_pos (by simp)
  have hx := h.expireDueProbes cfg now
  simp only [nativeAssignments, hhas, ← restrict_expireDueProbes h]
  generalize s.expireDueProbes cfg now = t at hx
  have hversion : (t.restrict owner sc removed).assignmentVersion sc agentId =
      t.assignmentVersion sc agentId := by
    simp only [assignmentVersion, restrict]
    rw [get?_part (by simp)]
  rw [desiredAssignments_restrict hx, hversion]
  split <;> rfl

/-! ### Native ingest -/

theorem restrict_deriveNativeLogicalStatus (h : Placed owner s) {id : JsString} (hown : owner id = sc) :
    (s.deriveNativeLogicalStatus id sc).restrict owner sc removed =
      (s.restrict owner sc removed).deriveNativeLogicalStatus id sc := by
  have hderived : ∀ stored : StoredProbe, (s.restrict owner sc removed).derivedStatus sc stored id =
      s.derivedStatus sc stored id := by
    intro stored
    have hstatus : (s.restrict owner sc removed).statuses.get? id = s.statuses.get? id :=
      get?_part (ownId_of hown)
    have harmed : (s.restrict owner sc removed).deriveNativeArmedAt id = s.deriveNativeArmedAt id := by
      funext l
      simp only [deriveNativeArmedAt, hstatus]
    -- the instances are asked for by scope
    have hinstances : (s.restrict owner sc removed).instanceStatuses sc stored id =
        s.instanceStatuses sc stored id := by
      rw [instanceStatuses, instances_restrict h fun i hi => ?_, instanceStatuses]
      · refine List.map_congr_left fun i _ => ?_
        simp only [restrict]
        rw [get?_part (by simp)]
      · rw [Bool.and_eq_true, decide_eq_true_eq] at hi
        exact hi.1
    simp only [derivedStatus, hinstances, harmed]
  simp only [deriveNativeLogicalStatus, ownProbe_restrict h]
  rcases s.ownProbe id sc with - | stored
  · rfl
  dsimp only
  rw [hderived]
  split
  · rfl
  rcases s.derivedStatus sc stored id with - | status
  · rfl
  · exact restrict_setStatus hown status

theorem restrict_recordNativeStatus (h : Placed owner s) (input : NativeIngestEnvelope)
    {e : ProbeEvent} (hown : owner e.probeId = sc) (status : ProbeStatus) :
    (s.recordNativeStatus sc input e status).restrict owner sc removed =
      (s.restrict owner sc removed).recordNativeStatus sc input e status := by
  have hget : (s.restrict owner sc removed).nativeStatuses.get? (statusKeyOf sc input e) =
      s.nativeStatuses.get? (statusKeyOf sc input e) := get?_part (by simp [statusKeyOf])
  have hbump : part (inScope sc) (bumpNativeAssignmentVersion sc s.nativeAssignmentVersions input.agentId) =
      bumpNativeAssignmentVersion sc (part (inScope sc) s.nativeAssignmentVersions) input.agentId :=
    part_bump_own [input.agentId] _
  have hset : (s.withNativeStatus sc input (statusKeyOf sc input e) status).restrict owner sc removed =
      (s.restrict owner sc removed).withNativeStatus sc input (statusKeyOf sc input e) status := by
    -- whether the status latches is read off the part
    have hlatches : (s.restrict owner sc removed).latches (statusKeyOf sc input e) status =
        s.latches (statusKeyOf sc input e) status := by
      rw [latches, hget, latches]
    rw [withNativeStatus, withNativeStatus, hlatches]
    simp only [restrict]
    rw [part_set_own (by simp [statusKeyOf])]
    rcases s.latches (statusKeyOf sc input e) status with - | -
    · rfl
    · rw [if_pos rfl, if_pos rfl, hbump]
  -- the derivation asks for instances, which no status moves
  have hplaced : Placed owner (s.withNativeStatus sc input (statusKeyOf sc input e) status) :=
    h.congr rfl rfl rfl rfl
  have hderive : _ = ((s.withNativeStatus sc input (statusKeyOf sc input e) status).restrict owner sc
      removed).deriveNativeLogicalStatus e.probeId sc := restrict_deriveNativeLogicalStatus hplaced hown
  rw [hset] at hderive
  simp only [statusKeyOf] at hget hderive
  simp only [recordNativeStatus, hget]
  split
  · rfl
  · rw [withNativeStatus, withNativeStatus, latches, latches, hget] at hderive
    exact hderive

theorem restrict_ingestNativeEvent (h : Placed owner s) (input : NativeIngestEnvelope) {e : ProbeEvent}
    (hown : owner e.probeId = sc) :
    (s.ingestNativeEvent cfg sc input e).restrict owner sc removed =
      (s.restrict owner sc removed).ingestNativeEvent cfg sc input e := by
  simp only [ingestNativeEvent, ← restrict_appendEvent hown]
  rcases nativeStatusOf e with - | status
  · rfl
  · refine restrict_recordNativeStatus ?_ input hown status
    exact h.congr rfl rfl rfl rfl

theorem Placed.ingestNativeEvent (h : Placed owner s) (input : NativeIngestEnvelope) (e : ProbeEvent) :
    Placed owner (s.ingestNativeEvent cfg sc input e) := by
  rcases ingestNativeEvent_eq cfg sc input s e with heq | ⟨status, -, -, heq⟩
  · rw [heq]
    exact h.congr rfl rfl rfl rfl
  · obtain ⟨statuses, -, hd⟩ := deriveNativeLogicalStatus_eq e.probeId sc
      ((s.appendEvent cfg e).withNativeStatus sc input (statusKeyOf sc input e) status)
    rw [heq, hd]
    exact h.congr rfl rfl rfl rfl

theorem restrict_ingestNativeEvents (h : Placed owner s) (input : NativeIngestEnvelope)
    {l : List ProbeEvent} (hown : ∀ e ∈ l, owner e.probeId = sc) :
    (l.foldl (ingestNativeEvent cfg sc input) s).restrict owner sc removed =
      l.foldl (ingestNativeEvent cfg sc input) (s.restrict owner sc removed) := by
  induction l generalizing s with
  | nil => rfl
  | cons e l ih =>
    rw [List.foldl_cons, List.foldl_cons,
      ih (h.ingestNativeEvent input e) fun a ha => hown a (List.mem_cons_of_mem e ha),
      restrict_ingestNativeEvent h input (hown e List.mem_cons_self)]

theorem restrict_touchNativeService (input : NativeIngestEnvelope) :
    (s.touchNativeService now sc input).restrict owner sc removed =
      (s.restrict owner sc removed).touchNativeService now sc input := by
  have hservice : (s.restrict owner sc removed).services.get? (serviceKey sc input.serviceId) =
      s.services.get? (serviceKey sc input.serviceId) := get?_part (by simp)
  simp only [touchNativeService, hservice]
  rcases s.services.get? (serviceKey sc input.serviceId) with - | service
  · rfl
  · simp only [restrict]
    rw [part_set_own (by simp)]

/-- What a batch needs to know of the removed probes: the scope's own are
remembered in both, and of no other scope's in either. -/
structure RemovedAgree (owner : JsString → ResourceScope) (sc : ResourceScope)
    (removed : JsMap JsString ℕ) (s : BrokerState) (l : List ProbeEvent) : Prop where
  own : ∀ id, owner id = sc → removed.get? id = s.recentlyRemovedProbes.get? id
  foreign : ∀ id, owner id ≠ sc → removed.get? id = none
  named : ∀ e ∈ l, owner e.probeId ≠ sc → s.recentlyRemovedProbes.get? e.probeId = none

theorem acceptNativeEvents_restrict (h : Placed owner s) (input : NativeIngestEnvelope)
    {l : List ProbeEvent} (hr : RemovedAgree owner sc removed s l) :
    (s.restrict owner sc removed).acceptNativeEvents input sc l = s.acceptNativeEvents input sc l := by
  have hprobes : (s.restrict owner sc removed).probes = part (ownId owner sc) s.probes := rfl
  have hremoved : (s.restrict owner sc removed).recentlyRemovedProbes = removed := rfl
  induction l with
  | nil => rfl
  | cons e l ih =>
    have hl : RemovedAgree owner sc removed s l :=
      { hr with named := fun a ha => hr.named a (List.mem_cons_of_mem e ha) }
    simp only [acceptNativeEvents, ih hl, hprobes, hremoved]
    by_cases hown : owner e.probeId = sc
    · rw [get?_part (ownId_of hown), JsMap.has, JsMap.has, hr.own _ hown]
    · -- the probe of another scope is in neither, and not remembered
      have hnone : removed.has e.probeId = false := JsMap.has_eq_false_iff.mpr (hr.foreign _ hown)
      rw [part, JsMap.get?_filter_of_neg (ownId_of_ne hown)]
      rcases hg : s.probes.get? e.probeId with - | stored
      · have hnone' : s.recentlyRemovedProbes.has e.probeId = false :=
          JsMap.has_eq_false_iff.mpr (hr.named e List.mem_cons_self hown)
        dsimp only
        rw [hnone, hnone']
      · -- a stored probe of another scope is refused as one that is unknown
        have hscope : stored.scope ≠ sc := (h.probes _ stored hg).2 ▸ hown
        have hcheck : checkNativeEvent input sc stored e =
            .error (invalidRequest (js "native event does not match its logical probe")) :=
          if_pos (.inl hscope)
        dsimp only
        rw [hnone, hcheck]
        rfl

/-- An event that is accepted is of a probe of the scope. -/
theorem owner_of_accepted (h : Placed owner s) {input : NativeIngestEnvelope} {l accepted : List ProbeEvent}
    (hok : s.acceptNativeEvents input sc l = .ok accepted) : ∀ e ∈ accepted, owner e.probeId = sc := by
  intro e he
  obtain ⟨-, stored, hg, hchecked⟩ := acceptNativeEvents_eq_ok hok e he
  exact (h.probes _ stored hg).2.trans (checkNativeEvent_eq_ok hchecked).1

/-- The removed probes that are remembered at a clock value. -/
def remembered (now : ℕ) (removed : JsMap JsString ℕ) : JsMap JsString ℕ :=
  removed.filter fun _ removedAt => now < removedAt + removedProbeGraceMs

theorem recentlyRemovedProbes_batch (input : NativeIngestEnvelope) (l : List ProbeEvent) :
    ((l.foldl (ingestNativeEvent cfg sc input) s).touchNativeService now sc input).recentlyRemovedProbes =
      s.recentlyRemovedProbes := by
  have htouch : ∀ t : BrokerState,
      (t.touchNativeService now sc input).recentlyRemovedProbes = t.recentlyRemovedProbes := by
    intro t
    rcases touchNativeService_eq now sc input t with heq | ⟨_, -, heq⟩ <;> rw [heq]
  rw [htouch]
  induction l generalizing s with
  | nil => rfl
  | cons e l ih =>
    rw [List.foldl_cons, ih]
    rcases ingestNativeEvent_eq cfg sc input s e with heq | ⟨status, -, -, heq⟩
    · rw [heq]
      rfl
    · obtain ⟨statuses, -, hd⟩ := deriveNativeLogicalStatus_eq e.probeId sc
        ((s.appendEvent cfg e).withNativeStatus sc input (statusKeyOf sc input e) status)
      rw [heq, hd]
      rfl

/-- Whether the instance of a batch is known is seen in the restriction. -/
theorem nativeInstance_restrict (agentId instanceId : JsString) :
    (s.restrict owner sc removed).nativeInstances.get? (nativeInstanceKey sc agentId instanceId) =
      s.nativeInstances.get? (nativeInstanceKey sc agentId instanceId) :=
  get?_part (by simp)

/-- The removed probes that are remembered are pruned alike on both sides. -/
theorem restrict_pruneRemovedProbes :
    (s.restrict owner sc removed).pruneRemovedProbes now =
      (s.pruneRemovedProbes now).restrict owner sc (remembered now removed) := rfl

theorem ingestNativeChecked_restrict (cfg : Config) (h : Placed owner s) {input : NativeIngestEnvelope}
    (hr : RemovedAgree owner sc (remembered now removed) (s.pruneRemovedProbes now) input.events) :
    ∃ removed', (removed' = removed ∧
        (s.ingestNativeChecked cfg now input sc).1.recentlyRemovedProbes = s.recentlyRemovedProbes ∨
      removed' = remembered now removed ∧
        (s.ingestNativeChecked cfg now input sc).1.recentlyRemovedProbes =
          remembered now s.recentlyRemovedProbes) ∧
      (s.restrict owner sc removed).ingestNativeChecked cfg now input sc =
        Prod.map (restrict owner sc removed') id (s.ingestNativeChecked cfg now input sc) := by
  simp only [ingestNativeChecked, nativeInstance_restrict]
  rw [restrict_pruneRemovedProbes]
  split
  · refine ⟨remembered now removed, ?_⟩
    have ht : Placed owner (s.pruneRemovedProbes now) := h.congr rfl rfl rfl rfl
    have hremoved : (s.pruneRemovedProbes now).recentlyRemovedProbes =
        remembered now s.recentlyRemovedProbes := rfl
    generalize s.pruneRemovedProbes now = t at ht hr hremoved
    rw [acceptNativeEvents_restrict ht input hr]
    rcases ha : t.acceptNativeEvents input sc input.events with e | accepted
    · exact ⟨.inr ⟨rfl, hremoved⟩, rfl⟩
    dsimp only
    have hown := owner_of_accepted ht ha
    split
    · rw [← restrict_ingestNativeEvents ht input hown, ← restrict_touchNativeService]
      exact ⟨.inr ⟨rfl, (recentlyRemovedProbes_batch input accepted).trans hremoved⟩, rfl⟩
    · rw [← restrict_recordHealth, ← restrict_ingestNativeEvents (ht.recordHealth _ _) input hown,
        ← restrict_touchNativeService]
      exact ⟨.inr ⟨rfl, (recentlyRemovedProbes_batch input accepted).trans hremoved⟩, rfl⟩
  · exact ⟨removed, .inl ⟨rfl, rfl⟩, rfl⟩

/-- The removed probes of the restriction are the scope's own, as long as they
are remembered. -/
structure Remembers (owner : JsString → ResourceScope) (sc : ResourceScope) (now : ℕ)
    (removed : JsMap JsString ℕ) (s : BrokerState) : Prop where
  own : ∀ m, now ≤ m → ∀ id, owner id = sc →
    (remembered m removed).get? id = (remembered m s.recentlyRemovedProbes).get? id
  foreign : ∀ id, owner id ≠ sc → removed.get? id = none

theorem remembered_remembered {n m : ℕ} (h : n ≤ m) (removed : JsMap JsString ℕ) :
    remembered m (remembered n removed) = remembered m removed := by
  rw [remembered, remembered, JsMap.filter_filter, remembered]
  congr 1
  funext _ removedAt
  by_cases hm : m < removedAt + removedProbeGraceMs
  · rw [decide_eq_true hm, decide_eq_true (h.trans_lt hm)]
    rfl
  · rw [decide_eq_false hm]
    rfl

/-- Forgetting old probes on either side changes nothing. -/
theorem Remembers.forget {t : BrokerState} (h : Remembers owner sc now removed s)
    {removed' : JsMap JsString ℕ} (hr : removed' = removed ∨ removed' = remembered now removed)
    (ht : t.recentlyRemovedProbes = s.recentlyRemovedProbes ∨
      t.recentlyRemovedProbes = remembered now s.recentlyRemovedProbes) :
    Remembers owner sc now removed' t where
  own m hm id hown := by
    have hleft : remembered m removed' = remembered m removed := by
      rcases hr with rfl | rfl
      · rfl
      · exact remembered_remembered hm removed
    have hright : remembered m t.recentlyRemovedProbes = remembered m s.recentlyRemovedProbes := by
      rcases ht with heq | heq
      · rw [heq]
      · rw [heq, remembered_remembered hm]
    rw [hleft, hright]
    exact h.own m hm id hown
  foreign id hother := by
    rcases hr with rfl | rfl
    · exact h.foreign id hother
    · rw [remembered, JsMap.get?_filter, h.foreign id hother]
      rfl

theorem Remembers.congr {t : BrokerState} (h : Remembers owner sc now removed s)
    (ht : t.recentlyRemovedProbes = s.recentlyRemovedProbes) : Remembers owner sc now removed t :=
  h.forget (.inl rfl) (.inl ht)

/-- A probe of the scope is remembered on both sides. -/
theorem Remembers.set {t : BrokerState} (h : Remembers owner sc now removed s) {id : JsString}
    (hown : owner id = sc) (ht : t.recentlyRemovedProbes = s.recentlyRemovedProbes.set id now) :
    Remembers owner sc now (removed.set id now) t where
  own m hm id' hown' := by
    have hold := h.own m hm id' hown'
    rw [remembered, remembered, JsMap.get?_filter, JsMap.get?_filter] at hold ⊢
    rw [ht, JsMap.get?_set, JsMap.get?_set]
    split
    · rfl
    · exact hold
  foreign id' hother := by
    have hne : id' ≠ id := fun heq => hother (by rw [heq, hown])
    rw [JsMap.get?_set_of_ne hne]
    exact h.foreign id' hother

/-- A probe of another scope is remembered on the other side only. -/
theorem Remembers.set_foreign {t : BrokerState} (h : Remembers owner sc now removed s) {id : JsString}
    (hother : owner id ≠ sc) (ht : t.recentlyRemovedProbes = s.recentlyRemovedProbes.set id now) :
    Remembers owner sc now removed t where
  own m hm id' hown := by
    have hne : id' ≠ id := fun heq => hother (by rw [← heq, hown])
    rw [h.own m hm id' hown, remembered, remembered, JsMap.get?_filter, JsMap.get?_filter, ht,
      JsMap.get?_set_of_ne hne]
  foreign := h.foreign

theorem Remembers.later {n : ℕ} (h : Remembers owner sc n removed s) (hle : n ≤ now) :
    Remembers owner sc now removed s :=
  ⟨fun m hm => h.own m (hle.trans hm), h.foreign⟩

/-! ### Services -/

theorem scopeServices_restrict (h : Placed owner s) :
    (s.restrict owner sc removed).scopeServices sc = s.scopeServices sc :=
  JsMap.filter_values_filter fun k r hk hr => by
    have hin : inScope r.scope k = true := h.services k r hk
    rwa [of_decide_eq_true hr] at hin

/-- The services of the scope are refreshed one by one, on both sides in one order. -/
theorem listServices_restrict (h : Placed owner s) :
    (s.restrict owner sc removed).listServices cfg now sc =
      Prod.map (restrict owner sc removed) id (s.listServices cfg now sc) := by
  have hfold : ∀ (l : List ServiceRecord) (t : BrokerState), Placed owner t →
      Placed owner (l.foldl (fun s service => s.refreshServiceCapabilities now sc service.serviceId) t) ∧
        (l.foldl (fun s service => s.refreshServiceCapabilities now sc service.serviceId) t).restrict
            owner sc removed =
          l.foldl (fun s service => s.refreshServiceCapabilities now sc service.serviceId)
            (t.restrict owner sc removed) := by
    intro l
    induction l with
    | nil => exact fun t ht => ⟨ht, rfl⟩
    | cons service l ih =>
      intro t ht
      have hrefreshed : Placed owner (t.refreshServiceCapabilities now sc service.serviceId) :=
        ht.refresh service.serviceId
      obtain ⟨hplaced, heq⟩ := ih _ hrefreshed
      rw [restrict_refresh] at heq
      exact ⟨hplaced, heq⟩
  obtain ⟨hplaced, heq⟩ := hfold (s.scopeServices sc) s h
  simp only [listServices, scopeServices_restrict h, ← heq, scopeServices_restrict hplaced]
  rfl

end BrokerState

/-! ### Requests -/

/-- What keeps a scope's requests apart from the other scopes: it draws
identifiers of its own, and its native batches name no probe of another scope
that was removed a short while ago. -/
structure Apart (owner : JsString → ResourceScope) (scope : ResourceScope) (now : ℕ) (r : Request)
    (s : BrokerState) : Prop where
  draws : ∀ draws input, r = .createProbe draws input → ∀ n, owner (draws n) = scope
  named : ∀ input, r = .ingestNative input → ∀ e ∈ input.events, owner e.probeId ≠ scope →
    (remembered now s.recentlyRemovedProbes).get? e.probeId = none

namespace BrokerState

/-- Only a deletion remembers a probe; the others prune or leave it. -/
theorem recentlyRemovedProbes_handle {r : Request} (hr : ∀ id, r ≠ .deleteProbe id) (cfg : Config)
    (now : ℕ) (scope : ResourceScope) (s : BrokerState) :
    (s.handle cfg now scope r).1.recentlyRemovedProbes = s.recentlyRemovedProbes ∨
      (s.handle cfg now scope r).1.recentlyRemovedProbes = remembered now s.recentlyRemovedProbes := by
  have hc := handle_changes cfg now scope r s
  generalize (s.handle cfg now scope r).1 = t at hc
  induction hc with
  | refl => exact .inl rfl
  | tail _ hchange ih =>
    rcases recentlyRemovedProbes_change hchange hr with heq | heq
    · rwa [heq]
    · right
      rcases ih with hih | hih
      · rw [heq, pruneRemovedProbes, hih]
        rfl
      · rw [heq, pruneRemovedProbes, hih]
        exact remembered_remembered le_rfl _

theorem ingestNative_restrict (cfg : Config) (h : Placed owner s) {input : NativeIngestEnvelope}
    (hr : RemovedAgree owner sc (remembered now removed) (s.pruneRemovedProbes now) input.events) :
    ∃ removed', (removed' = removed ∨ removed' = remembered now removed) ∧
      (s.restrict owner sc removed).ingestNative cfg now input sc =
        Prod.map (restrict owner sc removed') id (s.ingestNative cfg now input sc) := by
  obtain ⟨removed', hr', heq⟩ := ingestNativeChecked_restrict cfg h hr
  refine ⟨removed', hr'.imp And.left And.left, ?_⟩
  simp only [ingestNative, heq]
  rcases s.ingestNativeChecked cfg now input sc with ⟨t, (⟨statusCode, code, message⟩ | - | message) | n⟩
  · dsimp only [Prod.map_apply, id]
    rw [← restrict_recordHealth]
  · rfl
  · rfl
  · rfl

/-- **A request of a scope does to the restriction what it does to the state,
and gets the same answer.** -/
theorem handle_restrict (cfg : Config) (h : Placed owner s) {L : Limits} (hagents : s.nativeAgents.All (AgentOk L))
    {r : Request} (hv : r.Valid) (ha : Apart owner sc now r s) (hrem : Remembers owner sc now removed s) :
    ∃ removed', Remembers owner sc now removed' (s.handle cfg now sc r).1 ∧
      (s.restrict owner sc removed).handle cfg now sc r =
        Prod.map (restrict owner sc removed') id (s.handle cfg now sc r) := by
  have hsame : (∀ id, r ≠ .deleteProbe id) → Remembers owner sc now removed (s.handle cfg now sc r).1 :=
    fun hr => hrem.forget (.inl rfl) (recentlyRemovedProbes_handle hr cfg now sc s)
  cases r with
  | createProbe draws input =>
    refine ⟨removed, hsame (by simp), ?_⟩
    simp only [handle, answer, createProbe_restrict h (ha.draws draws input rfl)]
    rfl
  | deleteProbe id =>
    simp only [handle, answer]
    rcases deleteProbe_restrict now removed h id with ⟨hr, hs⟩ | ⟨hown, hr, hs⟩
    · rw [hr, hs]
      exact ⟨removed, hrem, rfl⟩
    · rw [hr]
      exact ⟨_, hrem.set hown hs, rfl⟩
  | listProbes serviceId =>
    refine ⟨removed, hsame (by simp), ?_⟩
    simp only [handle, answer, listProbes_restrict h]
    rfl
  | getProbe id =>
    refine ⟨removed, hsame (by simp), ?_⟩
    simp only [handle, answer, getProbe_restrict h]
    rfl
  | getEvents id =>
    refine ⟨removed, hsame (by simp), ?_⟩
    simp only [handle, answer, getEvents_restrict h]
    rfl
  | getStatus id =>
    refine ⟨removed, hsame (by simp), ?_⟩
    simp only [handle, answer, getStatus_restrict h]
    rfl
  | pollProbes serviceId since commitSha =>
    refine ⟨removed, hsame (by simp), ?_⟩
    simp only [handle, answer, pollProbes_restrict h]
    rfl
  | sourceMapStatus serviceId commitSha uploaderId =>
    refine ⟨removed, hsame (by simp), ?_⟩
    simp only [handle, answer, sourceMapStatus_restrict]
    rfl
  | uploadSourceMap input =>
    refine ⟨removed, hsame (by simp), ?_⟩
    simp only [handle, answer, uploadSourceMap_restrict]
    rfl
  | completeSourceMaps serviceId commitSha uploaderId =>
    refine ⟨removed, hsame (by simp), ?_⟩
    simp only [handle, answer, completeSourceMaps_restrict h]
    rfl
  | getSourceMapSet serviceId commitSha =>
    refine ⟨removed, hrem, ?_⟩
    simp only [handle, answer, getSourceMapSet, sourceMapSet_restrict]
    rfl
  | ingest input =>
    refine ⟨removed, hsame (by simp), ?_⟩
    simp only [handle, answer, ingest_restrict h]
    rfl
  | registerNativeAgent input =>
    refine ⟨removed, hsame (by simp), ?_⟩
    simp only [handle, answer, registerNativeAgent_restrict]
    rfl
  | replaceNativeInstances agentId instances allowed =>
    refine ⟨removed, hsame (by simp), ?_⟩
    simp only [handle, answer, replaceNativeInstances_restrict h hagents hv]
    rfl
  | nativeAssignments agentId since allowed =>
    refine ⟨removed, hsame (by simp), ?_⟩
    simp only [handle, answer, nativeAssignments_restrict h]
    rfl
  | ingestNative input =>
    have hagree : RemovedAgree owner sc (remembered now removed) (s.pruneRemovedProbes now) input.events :=
      { own := hrem.own now le_rfl
        foreign := fun id hother => by
          rw [remembered, JsMap.get?_filter, hrem.foreign id hother]
          rfl
        named := ha.named input rfl }
    obtain ⟨removed', hr, heq⟩ := ingestNative_restrict cfg h hagree
    refine ⟨removed', hrem.forget hr (recentlyRemovedProbes_handle (by simp) cfg now sc s), ?_⟩
    simp only [handle, answer, heq]
    rfl
  | listServices =>
    refine ⟨removed, hsame (by simp), ?_⟩
    simp only [handle, answer, listServices_restrict h]
    rfl

end BrokerState
