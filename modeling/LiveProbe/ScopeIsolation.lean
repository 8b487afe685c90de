/-
LiveProbe/ScopeIsolation.lean

Scopes do not see each other.

Many scopes share one broker.  Whatever the other scopes ask for, and in
whatever order, a scope gets the answers it would get from a broker of its
own: one that is given the scope's requests and some sweeps of the TTL timer
(`scope_isolation`).  The sweeps stand for requests of the others that expire
what is due; they are the only trace of the others there is.

Two things have to be assumed (`Apart`).  Identifiers drawn for one scope are
not drawn for another, for a draw that meets any probe is repeated.  And a
native batch names no probe of another scope that was removed within the last
ten minutes: the broker remembers removed probes without their scopes, and an
event of such a probe is dropped in silence, where one of an unknown probe is
an error.
-/
import LiveProbe.ScopedRequests

open JsString Broker BrokerState Protocol

namespace BrokerState

variable {sc scope : ResourceScope} {owner : JsString → ResourceScope} {removed : JsMap JsString ℕ}
  {s t : BrokerState} {cfg : Config} {now : ℕ} {r : Request} {L : Limits}

/-! ### The invariant -/

/-- Every probe is of the scope its identifier belongs to. -/
def ProbesOwned (owner : JsString → ResourceScope) (s : BrokerState) : Prop :=
  s.probes.All fun id p => owner id = p.scope

/-- Records that passed their schemas are placed. -/
theorem placed_of_records (hi : Indexed s) (hr : Records cfg L s) (ho : ProbesOwned owner s) :
    Placed owner s where
  probes k p hk := ⟨(hi.probes k p hk).1, ho k p hk⟩
  services k r hk := by
    rw [(hr.services k r hk).key]
    simp
  sourceMapSets k m hk := by
    rw [(hi.sourceMapSets k m hk).key]
    simp
  nativeInstances k i hk := by
    rw [(hr.nativeInstances k i hk).key]
    simp

/-- The identifier of a new probe is one of those drawn. -/
theorem owner_of_drawn {draws : ℕ → JsString} {id : JsString} (hdraws : ∀ n, owner (draws n) = scope)
    (hdraw : s.drawProbeId draws = some id) : owner id = scope := by
  obtain ⟨n, -, rfl⟩ := List.mem_map.mp (List.mem_of_find?_eq_some hdraw)
  exact hdraws n

theorem ProbesOwned.expireDueProbes (h : ProbesOwned owner s) (cfg : Config) (now : ℕ) :
    ProbesOwned owner (s.expireDueProbes cfg now) :=
  expireDueProbes_induction h fun _ e ht he hdue => by
    rw [ProbesOwned, probes_expireProbe, if_pos hdue]
    exact ht.set (ht e.1 e.2 (JsMap.get?_eq_some_iff.mpr he))

theorem ProbesOwned.change (h : ProbesOwned owner s) (ha : Apart owner scope now r s)
    (hc : Change cfg now scope r s t) : ProbesOwned owner t := by
  rcases probes_change hc with heq | rfl | ⟨draws, input, compiled, id, probe, hr, -, hdraw, hparsed, rfl⟩ |
    ⟨id, stored, -, -, -, heq⟩
  · rwa [ProbesOwned, heq]
  · exact h.expireDueProbes cfg now
  · refine JsMap.All.set (m := s.probes) h ?_
    rw [(newDefinition_parsed hparsed).1]
    exact owner_of_drawn (ha.draws draws input hr) hdraw
  · rw [ProbesOwned, heq]
    exact JsMap.All.delete h id

/-! ### Changes of other scopes -/

/-- A key lies in one scope. -/
theorem inScope_unique {a b : ResourceScope} {k : JsString} (ha : inScope a k = true)
    (hb : inScope b k = true) : a = b := by
  obtain ⟨x, hx⟩ := List.isPrefixOf_iff_prefix.mp ha
  obtain ⟨y, hy⟩ := List.isPrefixOf_iff_prefix.mp hb
  rw [List.append_assoc] at hx hy
  exact (scopeKey_append_inj (hx.trans hy.symm)).1

theorem inScope_foreign (hne : scope ≠ sc) {k : JsString} (h : inScope scope k = true) :
    inScope sc k = false := by
  rw [← Bool.not_eq_true]
  exact fun hsc => hne (inScope_unique h hsc)

/-- Dropping entries of other keys changes nothing in a part. -/
theorem part_filter_foreign {α : Type} {p : JsString → Bool} {q : JsString → α → Bool}
    {m : JsMap JsString α} (h : m.All fun k v => p k = true → q k v = true) :
    part p (m.filter q) = part p m := by
  rw [part_filter]
  refine JsMap.filter_eq_self fun k v hmem => ?_
  obtain ⟨hmem', hp⟩ := List.mem_filter.mp hmem
  exact h k v (JsMap.get?_eq_some_iff.mpr hmem') hp

/-- A loop over other keys changes nothing in a part. -/
theorem part_foldl_foreign {α β : Type} {p : JsString → Bool} {f : JsMap JsString α → β → JsMap JsString α}
    {l : List β} (h : ∀ m, ∀ b ∈ l, part p (f m b) = part p m) (m : JsMap JsString α) :
    part p (l.foldl f m) = part p m := by
  induction l generalizing m with
  | nil => rfl
  | cons b l ih =>
    rw [List.foldl_cons, ih fun m b' hb' => h m b' (List.mem_cons_of_mem b hb'), h m b List.mem_cons_self]

theorem restrict_rebuild_foreign (h : Placed owner s) (hne : scope ≠ sc) :
    (s.rebuildNativeServices scope).restrict owner sc removed = s.restrict owner sc removed := by
  simp only [rebuildNativeServices, restrict]
  congr 1
  rw [part_foldl_foreign fun m e _ => ?_]
  · refine part_filter_foreign fun k r hk hin => ?_
    have hscope : r.scope ≠ scope := by
      rintro rfl
      exact hne (inScope_unique (h.services k r hk) hin)
    rw [decide_eq_false hscope]
    rfl
  · rcases nativeServiceRecord scope e.1 e.2 with - | record
    · rfl
    · exact part_set_foreign (by simpa using hne) record

theorem restrict_replace_foreign (h : Placed owner s) (hne : scope ≠ sc) (agent : NativeAgentRecord)
    (agentId : JsString) (instances : List NativeInstance) (changed : Bool) :
    (({ s with nativeInstances := s.replacedInstances scope agent agentId instances }).settleInstances
      now scope agent agentId changed).restrict owner sc removed = s.restrict owner sc removed := by
  have hinstances : part (inScope sc) (s.replacedInstances scope agent agentId instances) =
      part (inScope sc) s.nativeInstances := by
    rw [replacedInstances, storeInstances, part_foldl_foreign fun m i _ =>
      part_set_foreign (by simpa using hne) (instanceRecord scope agent agentId i), dropInstances]
    refine part_filter_foreign fun k i hk hin => ?_
    have hscope : i.scope ≠ scope := by
      rintro rfl
      exact hne (inScope_unique (h.nativeInstances k i hk) hin)
    rw [decide_eq_false hscope]
    rfl
  have hbump : part (inScope sc) (bumpNativeAssignmentVersion scope s.nativeAssignmentVersions agentId) =
      part (inScope sc) s.nativeAssignmentVersions := part_bump_foreign hne [agentId] _
  rw [settleInstances]
  refine (restrict_rebuild_foreign ?_ hne).trans ?_
  · exact (h.replaced agent agentId instances).congr rfl rfl rfl rfl
  simp only [restrict, hinstances]
  rw [part_set_foreign (by simpa using hne)]
  rcases changed with - | -
  · rfl
  · rw [if_pos rfl, hbump]

theorem restrict_nativeEvent_foreign (hne : scope ≠ sc) {input : NativeIngestEnvelope} {e : ProbeEvent}
    (hother : owner e.probeId ≠ sc) :
    (s.ingestNativeEvent cfg scope input e).restrict owner sc removed = s.restrict owner sc removed := by
  have hevent : (s.appendEvent cfg e).restrict owner sc removed = s.restrict owner sc removed :=
    restrict_appendEvent_foreign hother
  rcases ingestNativeEvent_eq cfg scope input s e with heq | ⟨status, -, -, heq⟩
  · rw [heq, hevent]
  have hbump : part (inScope sc)
      (bumpNativeAssignmentVersion scope s.nativeAssignmentVersions input.agentId) =
      part (inScope sc) s.nativeAssignmentVersions := part_bump_foreign hne [input.agentId] _
  have hstatus : ((s.appendEvent cfg e).withNativeStatus scope input (statusKeyOf scope input e)
      status).restrict owner sc removed = (s.appendEvent cfg e).restrict owner sc removed := by
    simp only [restrict, withNativeStatus]
    rw [part_set_foreign (by simpa [statusKeyOf] using hne)]
    rcases (s.appendEvent cfg e).latches (statusKeyOf scope input e) status with - | -
    · rfl
    · rw [if_pos rfl]
      exact congrArg _ hbump
  obtain ⟨statuses, hset, hd⟩ := deriveNativeLogicalStatus_eq e.probeId scope
    ((s.appendEvent cfg e).withNativeStatus scope input (statusKeyOf scope input e) status)
  rw [heq, hd]
  rcases hset with rfl | ⟨_, derived, -, -, -, rfl⟩
  · exact hstatus.trans hevent
  · exact (restrict_setStatus_foreign hother derived).trans (hstatus.trans hevent)

/-- The keys a completion drops are of the scope that completes. -/
theorem surplus_inScope (h : Placed owner s) {serviceId k : JsString}
    (hk : k ∈ surplusSourceMaps cfg serviceId scope s.sourceMapSets) : inScope scope k = true := by
  obtain ⟨e, he, rfl⟩ := List.mem_map.mp hk
  obtain ⟨hmem, hq⟩ := List.mem_filter.mp (List.mem_mergeSort.mp (List.mem_of_mem_drop he))
  rw [Bool.and_eq_true, decide_eq_true_eq] at hq
  exact hq.1 ▸ h.sourceMapSets e.1 e.2 (JsMap.get?_eq_some_iff.mpr hmem)

theorem restrict_complete_foreign (h : Placed owner s) (hne : scope ≠ sc) (serviceId commitSha : JsString) :
    let t := (s.markComplete now serviceId commitSha scope).incrementServiceVersion serviceId scope
    (t.dropSourceMaps (surplusSourceMaps cfg serviceId scope t.sourceMapSets)).restrict owner sc removed =
      s.restrict owner sc removed := by
  intro t
  have ht : Placed owner t := (h.markComplete serviceId commitSha).congr rfl rfl rfl rfl
  have hdrop : ∀ {α : Type} (m : JsMap JsString α), part (inScope sc)
      ((surplusSourceMaps cfg serviceId scope t.sourceMapSets).foldl JsMap.delete m) =
        part (inScope sc) m := by
    intro α m
    exact part_foldl_foreign (fun m k hk =>
      part_delete_foreign (inScope_foreign hne (surplus_inScope ht hk)) (m := m)) m
  have hsame : t.restrict owner sc removed = s.restrict owner sc removed := by
    refine (restrict_incrementServiceVersion_foreign hne serviceId).trans ?_
    simp only [markComplete, restrict]
    rw [part_set_foreign (by simpa using hne), part_delete_foreign (by simpa using hne)]
  rw [dropSourceMaps_eq, ← hsame]
  simp only [restrict, hdrop]

/-- **What another scope does is not seen, but for the probes it expires.** -/
theorem restrict_change_foreign (removed : JsMap JsString ℕ) (h : Placed owner s) (hagents : s.nativeAgents.All (AgentOk L))
    (hv : r.Valid) (hne : scope ≠ sc) (ha : Apart owner scope now r s) (hc : Change cfg now scope r s t) :
    t = s.expireDueProbes cfg now ∨ t.restrict owner sc removed = s.restrict owner sc removed := by
  have hservice : ∀ serviceId, inScope sc (serviceKey scope serviceId) = false := by simpa using hne
  have hmap : ∀ serviceId commitSha, inScope sc (sourceMapKey scope serviceId commitSha) = false := by
    simpa using hne
  have hgrant : ∀ (u : BrokerState) serviceId commitSha uploaderId,
      (u.grantLease now (sourceMapKey scope serviceId commitSha) uploaderId).restrict owner sc removed =
        u.restrict owner sc removed := by
    intro u serviceId commitSha uploaderId
    simp only [grantLease, restrict]
    rw [part_set_foreign (hmap _ _)]
  have hremove : ∀ (u : BrokerState) id, owner id ≠ sc →
      (u.removeProbe now id).restrict owner sc removed = u.restrict owner sc removed := by
    intro u id hother
    simp only [removeProbe, restrict, part_delete_foreign (ownId_of_ne hother)]
  have hfound : ∀ id stored, s.probes.get? id = some stored → stored.scope = scope → owner id ≠ sc :=
    fun id stored hg hs heq => hne (hs.symm.trans ((h.probes id stored hg).2.symm.trans heq))
  cases hc with
  | expire => exact .inl rfl
  | refresh serviceId =>
    right
    rcases refreshServiceCapabilities_eq now scope serviceId s with heq | ⟨_, reports, -, hreports, heq⟩
    · rw [heq]
    · rw [heq]
      have hr : part (inScope sc) reports = part (inScope sc) s.agentCapabilityReports := by
        rcases hreports with rfl | ⟨_, -, rfl⟩
        · rfl
        · exact part_set_foreign (hservice serviceId) _
      simp only [restrict, hr]
      rw [part_set_foreign (hservice serviceId)]
  | touch serviceId since commitSha =>
    right
    simp only [touchService, restrict]
    rw [part_set_foreign (hservice serviceId)]
  | failCreate draws input => exact .inr (restrict_incrementServiceVersion_foreign hne input.serviceId)
  | create draws input compiled id probe isCreate compiles drawn parsed =>
    right
    have hother : owner probe.id ≠ sc := by
      rw [(newDefinition_parsed parsed).1, owner_of_drawn (ha.draws draws input isCreate) drawn]
      exact hne
    refine Eq.trans ?_ (restrict_incrementServiceVersion_foreign hne input.serviceId)
    simp only [insertProbe, restrict]
    rw [part_set_foreign (ownId_of_ne hother), part_set_foreign (ownId_of_ne hother)]
  | deleteExpired id stored isDelete found own => exact .inr (hremove s id (hfound id stored found own))
  | deleteLive id stored isDelete found own =>
    exact .inr ((hremove _ id (hfound id stored found own)).trans
      (restrict_incrementServiceVersion_foreign hne stored.probe.serviceId))
  | claim serviceId commitSha uploaderId =>
    right
    rw [hgrant]
    rcases clearForeignMaps_eq now (sourceMapKey scope serviceId commitSha) uploaderId s with heq | ⟨m, -, heq⟩
    · rw [heq]
    · rw [heq]
      simp only [restrict]
      rw [part_set_foreign (hmap _ _)]
  | renew serviceId commitSha uploaderId => exact .inr (hgrant s serviceId commitSha uploaderId)
  | upload input =>
    right
    simp only [addSourceMap, restrict]
    rw [part_set_foreign (hmap _ _)]
  | complete serviceId commitSha uploaderId isComplete marked =>
    right
    rw [marked]
    exact restrict_complete_foreign h hne serviceId commitSha
  | report input =>
    right
    simp only [ingestAgent, touchService, reportAgentCapabilities, restrict]
    rw [part_set_foreign (hservice _), part_set_foreign (hservice _)]
  | event input e isIngest mem checked =>
    right
    have hother : owner e.probeId ≠ sc := by
      rw [owner_of_checked h checked]
      exact hne
    have hevent : (s.appendEvent cfg e).restrict owner sc removed = s.restrict owner sc removed :=
      restrict_appendEvent_foreign hother
    obtain ⟨statuses, hset, heq⟩ := ingestEvent_eq cfg s e
    rw [heq]
    rcases hset with rfl | ⟨status, -, rfl⟩
    · exact hevent
    · exact (restrict_setStatus_foreign hother status).trans hevent
  | register input record isRegister parsed =>
    right
    have hagent : inScope sc (nativeAgentKey scope input.agentId) = false := by simpa using hne
    rw [registerNativeAgent_eq parsed]
    simp only [restrict]
    rw [part_set_foreign hagent]
    split
    · rfl
    · rw [part_set_foreign hagent]
  | replace agentId instances allowed agent isReplace registered checked =>
    right
    subst isReplace
    obtain ⟨changed, heq⟩ := replaceNativeInstances_ok now hagents hv registered checked
    rw [heq]
    exact restrict_replace_foreign h hne agent agentId instances changed
  | prune => exact .inr rfl
  | health serviceId f =>
    right
    simp only [recordHealth, restrict]
    rw [part_set_foreign (hservice serviceId)]
  | nativeEvent input i stored e isIngest mem inst target found checked =>
    right
    exact restrict_nativeEvent_foreign hne (hfound _ stored found (checkNativeEvent_eq_ok checked).1)
  | touchNative input =>
    right
    rcases touchNativeService_eq now scope input s with heq | ⟨service, -, heq⟩
    · rw [heq]
    · rw [heq]
      simp only [restrict]
      rw [part_set_foreign (hservice _)]

/-! ### Requests of other scopes -/

/-- What holds of every state of a broker whose scopes keep apart. -/
structure Kept (cfg : Config) (owner : JsString → ResourceScope) (s : BrokerState) : Prop where
  indexed : Indexed s
  records : Records cfg .schemas s
  owned : ProbesOwned owner s

theorem Kept.placed (h : Kept cfg owner s) : Placed owner s := placed_of_records h.indexed h.records h.owned

theorem Kept.init : Kept cfg owner {} := ⟨.init, .init, .empty⟩

theorem Kept.expireDueProbes (h : Kept cfg owner s) (now : ℕ) : Kept cfg owner (s.expireDueProbes cfg now) :=
  ⟨h.indexed.expireDueProbes, h.records.expireDueProbes h.indexed trivial, h.owned.expireDueProbes cfg now⟩

/-- Between the changes of a request nothing is removed, so what keeps the
request apart does not end. -/
theorem Apart.change (ha : Apart owner scope now r s) (hc : Change cfg now scope r s t) :
    Apart owner scope now r t where
  draws := ha.draws
  named input hr e he hother := by
    have hnone := ha.named input hr e he hother
    rcases recentlyRemovedProbes_change hc (by simp [hr]) with heq | heq
    · rwa [heq]
    · rw [heq]
      exact (congrArg (·.get? e.probeId) (remembered_remembered le_rfl _)).trans hnone

theorem Kept.change (h : Kept cfg owner s) (hv : r.Valid) (ha : Apart owner scope now r s)
    (hc : Change cfg now scope r s t) : Kept cfg owner t :=
  ⟨h.indexed.change hv hc, h.records.change h.indexed hv (Limits.schemas_admits now scope r) hc,
    h.owned.change ha hc⟩

theorem Kept.handle (h : Kept cfg owner s) (hv : r.Valid) (ha : Apart owner scope now r s) :
    Kept cfg owner (s.handle cfg now scope r).1 := by
  have hc := handle_changes cfg now scope r s
  generalize (s.handle cfg now scope r).1 = t at hc ⊢
  suffices Kept cfg owner t ∧ Apart owner scope now r t from this.1
  induction hc with
  | refl => exact ⟨h, ha⟩
  | tail _ hc ih => exact ⟨ih.1.change hv ih.2 hc, ih.2.change hc⟩

/-- A request of another scope does nothing to the restriction, or what a sweep does. -/
theorem handle_foreign (h : Kept cfg owner s) (hv : r.Valid) (hne : scope ≠ sc)
    (ha : Apart owner scope now r s) (removed : JsMap JsString ℕ) :
    (s.handle cfg now scope r).1.restrict owner sc removed = s.restrict owner sc removed ∨
      (s.handle cfg now scope r).1.restrict owner sc removed =
        (s.restrict owner sc removed).expireDueProbes cfg now := by
  have hc := handle_changes cfg now scope r s
  generalize (s.handle cfg now scope r).1 = t at hc ⊢
  suffices (t.restrict owner sc removed = s.restrict owner sc removed ∨
      t.restrict owner sc removed = (s.restrict owner sc removed).expireDueProbes cfg now) ∧
      Kept cfg owner t ∧ Apart owner scope now r t from this.1
  induction hc with
  | refl => exact ⟨.inl rfl, h, ha⟩
  | @tail u t _ hc ih =>
    obtain ⟨hu, hk, hau⟩ := ih
    refine ⟨?_, hk.change hv hau hc, hau.change hc⟩
    rcases restrict_change_foreign removed hk.placed hk.records.nativeAgents hv hne hau hc
      with rfl | heq
    · right
      rw [restrict_expireDueProbes hk.placed]
      rcases hu with hu | hu
      · rw [hu]
      · rw [hu, (settled_expireDueProbes cfg now _).expireDueProbes]
    · rwa [heq]

theorem Remembers.handle_foreign (h : Remembers owner sc now removed s) (hp : Placed owner s)
    (hne : scope ≠ sc) : Remembers owner sc now removed (s.handle cfg now scope r).1 := by
  by_cases hdelete : ∃ id, r = .deleteProbe id
  · obtain ⟨id, rfl⟩ := hdelete
    simp only [BrokerState.handle, answer, deleteProbe]
    rcases hg : s.probes.get? id with - | stored
    · exact h
    dsimp only
    split
    · next hscope =>
      have hother : owner id ≠ sc := by
        rw [(hp.probes id stored hg).2, hscope]
        exact hne
      refine h.set_foreign hother ?_
      split <;> rfl
    · exact h
  · exact h.forget (.inl rfl) (recentlyRemovedProbes_handle (fun id hr => hdelete ⟨id, hr⟩) cfg now scope s)

end BrokerState

/-! ### Runs -/

namespace QueueTask

/-- A task of a broker whose scopes keep apart: a sweep, or a request that has
passed the schemas of its route. -/
def KeepsApart (owner : JsString → ResourceScope) (s : BrokerState) (a : ℕ × QueueTask) : Prop :=
  ∀ scope r, a.2 = .request scope r → r.Valid ∧ Apart owner scope a.1 r s

/-- The answers a scope gets in a run, in order. -/
def answersTo (cfg : Config) (sc : ResourceScope) : BrokerState → List (ℕ × QueueTask) → List Response
  | _, [] => []
  | s, (now, .sweep) :: l => answersTo cfg sc (next cfg s (now, .sweep)) l
  | s, (now, .request scope r) :: l =>
    if scope = sc then
      (s.handle cfg now scope r).2 :: answersTo cfg sc (next cfg s (now, .request scope r)) l
    else answersTo cfg sc (next cfg s (now, .request scope r)) l

/-- A run of a scope of its own: its requests and the sweeps of a run, and a
sweep in the place of some requests of others. -/
inductive Confined (sc : ResourceScope) : List (ℕ × QueueTask) → List (ℕ × QueueTask) → Prop
  | nil : Confined sc [] []
  | own {l l'} (now : ℕ) (r : Request) :
      Confined sc l l' → Confined sc ((now, .request sc r) :: l) ((now, .request sc r) :: l')
  | sweep {l l'} (now : ℕ) : Confined sc l l' → Confined sc ((now, .sweep) :: l) ((now, .sweep) :: l')
  | dropped {l l'} (now : ℕ) (scope : ResourceScope) (r : Request) (foreign : scope ≠ sc) :
      Confined sc l l' → Confined sc ((now, .request scope r) :: l) l'
  | swept {l l'} (now : ℕ) (scope : ResourceScope) (r : Request) (foreign : scope ≠ sc) :
      Confined sc l l' → Confined sc ((now, .request scope r) :: l) ((now, .sweep) :: l')

variable {cfg : Config} {owner : JsString → ResourceScope} {sc : ResourceScope}

/-- From a state and its restriction on, a run and some run of the scope alone
give the same answers. -/
theorem confined_from {l : List (ℕ × QueueTask)} {s : BrokerState} {removed : JsMap JsString ℕ} {n : ℕ}
    (h : Kept cfg owner s) (hr : Remembers owner sc n removed s)
    (hclock : (n :: l.map Prod.fst).Pairwise (· ≤ ·)) (hl : AllOk (next cfg) (KeepsApart owner) s l) :
    ∃ l', Confined sc l l' ∧
      answersTo cfg sc (s.restrict owner sc removed) l' = answersTo cfg sc s l := by
  induction l generalizing s removed n with
  | nil => exact ⟨[], .nil, rfl⟩
  | cons a l ih =>
    obtain ⟨hok, hl⟩ := hl
    obtain ⟨hle, hclock⟩ := List.pairwise_cons.mp hclock
    obtain ⟨now, task⟩ := a
    have hr' : Remembers owner sc now removed s := hr.later (hle now List.mem_cons_self)
    cases task with
    | sweep =>
      obtain ⟨l', hconf, heq⟩ := ih (h.expireDueProbes now)
        (hr'.congr (recentlyRemovedProbes_expireDueProbes cfg now s)) hclock hl
      rw [restrict_expireDueProbes h.placed] at heq
      exact ⟨_, .sweep now hconf, heq⟩
    | request scope r =>
      obtain ⟨hv, ha⟩ := hok scope r rfl
      have hkept := h.handle hv ha
      by_cases hscope : scope = sc
      · subst hscope
        obtain ⟨removed', hrem, hhandle⟩ :=
          handle_restrict cfg h.placed h.records.nativeAgents hv ha hr'
        obtain ⟨l', hconf, heq⟩ := ih hkept hrem hclock hl
        refine ⟨_, .own now r hconf, ?_⟩
        simp only [answersTo, next, run, if_true, hhandle, Prod.map_fst, Prod.map_snd, id]
        exact congrArg _ heq
      · obtain ⟨l', hconf, heq⟩ := ih hkept (hr'.handle_foreign h.placed hscope) hclock hl
        rcases BrokerState.handle_foreign h hv hscope ha removed with hsame | hswept
        · refine ⟨l', .dropped now scope r hscope hconf, ?_⟩
          simp only [answersTo, if_neg hscope, next, run]
          rw [← heq, hsame]
        · refine ⟨_, .swept now scope r hscope hconf, ?_⟩
          simp only [answersTo, if_neg hscope, next, run]
          rw [← heq, hswept]

/-- **A scope gets the answers it would get from a broker of its own**, in
every run of a fresh broker in which the scopes keep apart and the clock does
not go back. -/
theorem scope_isolation (cfg : Config) (owner : JsString → ResourceScope) (sc : ResourceScope)
    {l : List (ℕ × QueueTask)} (hclock : (l.map Prod.fst).Pairwise (· ≤ ·))
    (hl : AllOk (next cfg) (KeepsApart owner) {} l) :
    ∃ l', Confined sc l l' ∧ answersTo cfg sc {} l' = answersTo cfg sc {} l := by
  have hzero : (0 :: l.map Prod.fst).Pairwise (· ≤ ·) :=
    List.pairwise_cons.mpr ⟨fun _ _ => Nat.zero_le _, hclock⟩
  have hrem : Remembers owner sc 0 ∅ {} := ⟨fun _ _ _ _ => rfl, fun _ _ => rfl⟩
  exact confined_from .init hrem hzero hl

end QueueTask

/-! ### Two scopes on one broker -/

namespace Sample

/-- A second environment of the project. -/
def staging : ResourceScope := { scope with environmentId := js "staging" }

/-- The identifiers that end in `1` are the first scope's. -/
def ownerByDigit (id : JsString) : ResourceScope :=
  if id.getLast? = some (unit '1') then scope else staging

/-- Both environments create a probe, and the first reads its own. -/
def shared : List (ℕ × QueueTask) :=
  [(0, .request scope (.createProbe (draw '1') (counter 1))),
    (1, .request staging (.createProbe (draw '2') (counter 2))),
    (2, .request staging (.deleteProbe (draw '2' 0))),
    (3, .request scope (.listProbes none))]

theorem shared_apart : ∀ a ∈ shared, ∀ s, QueueTask.KeepsApart ownerByDigit s a := by
  intro a ha s scope' r hr
  simp only [shared, List.mem_cons, List.not_mem_nil, or_false] at ha
  rcases ha with rfl | rfl | rfl | rfl
  · obtain ⟨rfl, rfl⟩ := QueueTask.request.inj hr
    refine ⟨counter_valid 1 (by simp), fun _ _ h _ => ?_, by simp⟩
    obtain ⟨rfl, -⟩ := Request.createProbe.inj h
    exact (by decide : ownerByDigit (draw '1' 0) = scope)
  · obtain ⟨rfl, rfl⟩ := QueueTask.request.inj hr
    refine ⟨counter_valid 2 (by simp), fun _ _ h _ => ?_, by simp⟩
    obtain ⟨rfl, -⟩ := Request.createProbe.inj h
    exact (by decide : ownerByDigit (draw '2' 0) = staging)
  · obtain ⟨rfl, rfl⟩ := QueueTask.request.inj hr
    exact ⟨(by decide : Protocol.probeIdSchema (draw '2' 0) = some (draw '2' 0)), by simp, by simp⟩
  · obtain ⟨rfl, rfl⟩ := QueueTask.request.inj hr
    exact ⟨rfl, by simp, by simp⟩

theorem shared_isolated : ∃ l', QueueTask.Confined scope shared l' ∧
    QueueTask.answersTo config scope {} l' = QueueTask.answersTo config scope {} shared :=
  QueueTask.scope_isolation config ownerByDigit scope (by decide) (AllOk.of_forall shared_apart {})

end Sample
