/-
LiveProbe/Forget.lean

What a rollback forgets.

`mutateDurably` rolls a rejected mutation back by loading the snapshot it took
before.  A snapshot has no capability reports and no source-map leases, and its
schema writes the build identifiers of captured values in lower case.  The
state after the rollback is the state before, brought to the clock of the
rollback, but for these (`Alike`).
-/
import LiveProbe.Process
import LiveProbe.View

open JsString Schema Broker Protocol BrokerState

namespace BrokerState

variable {cfg : Config} {now : ℕ} {scope : ResourceScope} {s t u : BrokerState}

/-! ### Expiry once and twice -/

theorem due_expire (now : ℕ) (p : StoredProbe) : (p.expire now).due now = false := by
  unfold StoredProbe.expire
  split
  · rfl
  · next h => rwa [Bool.not_eq_true] at h

/-- Nothing is due. -/
def Settled (now : ℕ) (s : BrokerState) : Prop := s.probes.All fun _ p => p.due now = false

theorem settled_expireDueProbes (cfg : Config) (now : ℕ) (s : BrokerState) :
    Settled now (s.expireDueProbes cfg now) := by
  intro k p hk
  rw [probes_expireDueProbes, JsMap.get?_mapVals] at hk
  obtain ⟨q, -, rfl⟩ := Option.map_eq_some_iff.mp hk
  exact due_expire now q

theorem Settled.expireDueProbes (h : Settled now s) : s.expireDueProbes cfg now = s := by
  have key : ∀ l : List (JsString × StoredProbe), (∀ e ∈ l, e.2.due now = false) →
      l.foldl (expireProbe cfg now) s = s := by
    intro l
    induction l with
    | nil => exact fun _ => rfl
    | cons e l ih =>
      intro hl
      have he : s.expireProbe cfg now e = s := by
        rw [expireProbe, if_neg (by simp [hl e List.mem_cons_self])]
      rw [List.foldl_cons, he]
      exact ih fun e' he' => hl e' (List.mem_cons_of_mem _ he')
  exact key _ fun e he => h e.1 e.2 (JsMap.get?_eq_some_iff.mpr he)

/-! ### Alike states -/

/-- `u` is `s` less what a snapshot does not bring back: reports and leases are
gone, capabilities empty, and the events are those the schema puts out. -/
structure Alike (now : ℕ) (s u : BrokerState) : Prop where
  probes : u.probes = s.probes
  serviceVersions : u.serviceVersions = s.serviceVersions
  events : u.events = s.events.mapVals fun _ ring => ring.map readEvent
  services : u.services = s.services.mapVals fun _ r => { r with capabilities := some [] }
  reports : u.agentCapabilityReports = ∅
  statuses : u.statuses = s.statuses
  sourceMapSets : u.sourceMapSets = s.sourceMapSets
  leases : u.sourceMapLeases = ∅
  nativeAgents : u.nativeAgents = s.nativeAgents
  nativeInstances : u.nativeInstances = s.nativeInstances
  removed : ∀ id, s.probes.has id = false →
    (u.pruneRemovedProbes now).recentlyRemovedProbes.get? id =
      (s.pruneRemovedProbes now).recentlyRemovedProbes.get? id

/-- The native part: the versions of registered agents and the statuses of some
probes. -/
structure AlikeNative (ids : JsString → Prop) (s u : BrokerState) : Prop where
  versions : ∀ k, s.nativeAgents.has k = true →
    u.nativeAssignmentVersions.get? k = s.nativeAssignmentVersions.get? k
  statuses : ∀ scope probeId version agentId instanceId buildId, ids probeId →
    u.nativeStatuses.get? (nativeStatusKey scope probeId version agentId instanceId buildId) =
      s.nativeStatuses.get? (nativeStatusKey scope probeId version agentId instanceId buildId)

theorem readEvent_expired (now : ℕ) (id : JsString) :
    readEvent (expiredEvent now id) = expiredEvent now id := by
  refine readEvent_eq_self.mpr fun e he => ?_
  simp only [probeEventSchema, expiredEvent, eventBodySchema, Option.bind_eq_bind,
    Option.bind_eq_some_iff, Option.pure_def, Option.some.injEq] at he
  obtain ⟨_, h₁, _, h₂, _, h₃, _, ⟨_, h₄, _, h₅, rfl⟩, rfl⟩ := he
  rw [kept_refine _ _ h₁, ← Option.some.inj h₂, kept_refine _ _ h₃, ← Option.some.inj h₄,
    ← Option.some.inj h₅]
  rfl

theorem pushEvent_map (cfg : Config) (f : ProbeEvent → ProbeEvent) {e : ProbeEvent} (h : f e = e)
    (ring : List ProbeEvent) :
    pushEvent cfg (ring.map f) e = (pushEvent cfg ring e).map f := by
  have hm : ring.map f ++ [e] = (ring ++ [e]).map f := by rw [List.map_append, List.map_singleton, h]
  rw [pushEvent, pushEvent, hm, List.length_map, List.map_drop]

theorem Alike.expireProbe (h : Alike now s u) (e : JsString × StoredProbe) :
    Alike now (s.expireProbe cfg now e) (u.expireProbe cfg now e) := by
  by_cases hdue : e.2.due now = true
  · have hstatus : u.expiredStatus now e.2.probe.id = s.expiredStatus now e.2.probe.id := by
      rw [expiredStatus, expiredStatus, h.statuses]
    have hversion : u.serviceVersion e.2.scope e.2.probe.serviceId =
        s.serviceVersion e.2.scope e.2.probe.serviceId := by
      rw [serviceVersion, serviceVersion, h.serviceVersions]
    simp only [BrokerState.expireProbe, if_pos hdue]
    refine { h with probes := ?_, serviceVersions := ?_, events := ?_, statuses := ?_, removed := ?_ }
    · exact congrArg (JsMap.set · e.1 e.2.markExpired) h.probes
    · change u.serviceVersions.set _ ⟨_, _, u.serviceVersion e.2.scope e.2.probe.serviceId + 1⟩ =
        s.serviceVersions.set _ ⟨_, _, s.serviceVersion e.2.scope e.2.probe.serviceId + 1⟩
      rw [hversion, h.serviceVersions]
    · change u.events.set e.2.probe.id _ = (s.events.set e.2.probe.id _).mapVals _
      rw [JsMap.mapVals_set, ← pushEvent_map cfg readEvent (readEvent_expired now _), ← h.events]
      congr 2
      change (u.events.get? e.2.probe.id).getD [] =
        ((s.events.get? e.2.probe.id).getD []).map readEvent
      rw [h.events, JsMap.get?_mapVals]
      cases s.events.get? e.2.probe.id <;> rfl
    · change u.statuses.set _ (u.expiredStatus now e.2.probe.id) =
        s.statuses.set _ (s.expiredStatus now e.2.probe.id)
      rw [hstatus, h.statuses]
    · intro id hid
      refine h.removed id ?_
      change (s.probes.set e.1 e.2.markExpired).has id = false at hid
      by_contra hne
      rw [Bool.not_eq_false] at hne
      rw [has_set_of_has hne] at hid
      cases hid
  · simpa only [BrokerState.expireProbe, if_neg hdue] using h

theorem get?_foldl_bump_congr {l : List JsString} {m m' : JsMap JsString ℕ} {k : JsString}
    (h : m.get? k = m'.get? k) :
    (l.foldl (bumpNativeAssignmentVersion scope) m).get? k =
      (l.foldl (bumpNativeAssignmentVersion scope) m').get? k := by
  induction l generalizing m m' with
  | nil => exact h
  | cons a l ih =>
    refine ih ?_
    rw [bumpNativeAssignmentVersion, bumpNativeAssignmentVersion, JsMap.get?_set, JsMap.get?_set]
    split
    · next hk => rw [← hk, h]
    · exact h

theorem AlikeNative.expireProbe {ids : JsString → Prop} (h : AlikeNative ids s u)
    (hi : u.nativeInstances = s.nativeInstances) (e : JsString × StoredProbe) :
    AlikeNative ids (s.expireProbe cfg now e) (u.expireProbe cfg now e) := by
  by_cases hdue : e.2.due now = true
  · simp only [BrokerState.expireProbe, if_pos hdue]
    refine ⟨fun k hk => ?_, h.statuses⟩
    have hagents : serviceAgents { u with probes := u.probes.set e.1 e.2.markExpired } e.2.scope
        e.2.probe.serviceId = serviceAgents { s with probes := s.probes.set e.1 e.2.markExpired }
        e.2.scope e.2.probe.serviceId := by
      simp only [serviceAgents, hi]
    change ((serviceAgents _ _ _).foldl _ u.nativeAssignmentVersions).get? k =
      ((serviceAgents _ _ _).foldl _ s.nativeAssignmentVersions).get? k
    rw [hagents]
    exact get?_foldl_bump_congr (h.versions k hk)
  · simpa only [BrokerState.expireProbe, if_neg hdue] using h

theorem Alike.expireDueProbes (h : Alike now s u) (cfg : Config) :
    Alike now (s.expireDueProbes cfg now) (u.expireDueProbes cfg now) := by
  unfold BrokerState.expireDueProbes
  rw [h.probes]
  generalize s.probes.entries = l
  induction l generalizing s u with
  | nil => exact h
  | cons e l ih => exact ih (h.expireProbe e)

theorem AlikeNative.expireDueProbes {ids : JsString → Prop} (hn : AlikeNative ids s u)
    (h : Alike now s u) (cfg : Config) :
    AlikeNative ids (s.expireDueProbes cfg now) (u.expireDueProbes cfg now) := by
  unfold BrokerState.expireDueProbes
  rw [h.probes]
  generalize s.probes.entries = l
  induction l generalizing s u with
  | nil => exact hn
  | cons e l ih => exact ih (hn.expireProbe h.nativeInstances e) (h.expireProbe e)

/-! ### The removed probes -/

/-- The maps an expiry leaves as they are. -/
theorem frame_expireDueProbes (cfg : Config) (now : ℕ) (s : BrokerState) :
    ∃ probes serviceVersions events statuses nativeAssignmentVersions, s.expireDueProbes cfg now =
      { s with probes, serviceVersions, events, statuses, nativeAssignmentVersions } :=
  expireDueProbes_induction (P := fun t => ∃ probes serviceVersions events statuses
    nativeAssignmentVersions, t =
      { s with probes, serviceVersions, events, statuses, nativeAssignmentVersions })
    ⟨_, _, _, _, _, rfl⟩ fun t e ⟨_, _, _, _, _, ht⟩ _ hdue => by
      rw [expireProbe, if_pos hdue, ht]
      exact ⟨_, _, _, _, _, rfl⟩

theorem recentlyRemovedProbes_expireDueProbes (cfg : Config) (now : ℕ) (s : BrokerState) :
    (s.expireDueProbes cfg now).recentlyRemovedProbes = s.recentlyRemovedProbes := by
  obtain ⟨_, _, _, _, _, h⟩ := frame_expireDueProbes cfg now s
  rw [h]

/-- Only a deletion remembers a probe; a native batch forgets the old ones. -/
theorem recentlyRemovedProbes_change {r : Request} (h : Change cfg now scope r s t)
    (hr : ∀ id, r ≠ .deleteProbe id) :
    t.recentlyRemovedProbes = s.recentlyRemovedProbes ∨
      t.recentlyRemovedProbes = (s.pruneRemovedProbes now).recentlyRemovedProbes := by
  rcases keepsProbes_or h with hsame | hc
  · exact .inl hsame.recentlyRemovedProbes
  cases hc with
  | expire => exact .inl (recentlyRemovedProbes_expireDueProbes cfg now s)
  | create => exact .inl rfl
  | delete id _ isDelete => exact absurd isDelete (hr id)
  | event input e =>
    left
    obtain ⟨_, _, h⟩ := ingestEvent_eq cfg s e
    rw [h]
    rfl
  | replace agentId instances allowed agent _ registered checked =>
    left
    obtain ⟨_, _, _, _, h⟩ := replaceNativeInstances_frame now registered checked
    rw [h]
  | prune => exact .inr rfl
  | nativeEvent input stored e =>
    left
    rcases ingestNativeEvent_eq cfg scope input s e with h | ⟨status, _, _, h⟩
    · rw [h]
      rfl
    · obtain ⟨statuses, _, hd⟩ := deriveNativeLogicalStatus_eq e.probeId scope
        ((s.appendEvent cfg e).withNativeStatus scope input (statusKeyOf scope input e) status)
      rw [h, hd]
      rfl

theorem pruneRemovedProbes_pruned {n : ℕ} (hle : n ≤ now)
    (h : t.recentlyRemovedProbes = (s.pruneRemovedProbes n).recentlyRemovedProbes) :
    (t.pruneRemovedProbes now).recentlyRemovedProbes =
      (s.pruneRemovedProbes now).recentlyRemovedProbes := by
  simp only [pruneRemovedProbes] at h ⊢
  rw [h, JsMap.filter_filter]
  congr 1
  funext k removedAt
  by_cases hk : now < removedAt + removedProbeGraceMs
  · simp [hk, hle.trans_lt hk]
  · simp [hk]

/-- A mutation does not change which missing probes are remembered. -/
theorem removed_run {n₀ : ℕ} (cfg : Config) (hle : n₀ ≤ now) (task : QueueTask) (s : BrokerState)
    {id : JsString} (hid : s.probes.has id = false) :
    ((task.run cfg n₀ s).1.pruneRemovedProbes now).recentlyRemovedProbes.get? id =
      (s.pruneRemovedProbes now).recentlyRemovedProbes.get? id := by
  cases task with
  | sweep =>
    simp only [QueueTask.run, pruneRemovedProbes, recentlyRemovedProbes_expireDueProbes]
  | request scope r =>
    by_cases hdel : ∃ id, r = .deleteProbe id
    · obtain ⟨id', rfl⟩ := hdel
      simp only [QueueTask.run, BrokerState.handle, answer, deleteProbe]
      rcases hg : s.probes.get? id' with - | stored
      · rfl
      have hne : id ≠ id' := by
        rintro rfl
        rw [JsMap.has, hg] at hid
        cases hid
      dsimp only
      split
      · have hset : ∀ u : BrokerState, u.recentlyRemovedProbes = s.recentlyRemovedProbes →
            ((u.removeProbe n₀ id').pruneRemovedProbes now).recentlyRemovedProbes.get? id =
              (s.pruneRemovedProbes now).recentlyRemovedProbes.get? id := fun u hu => by
          simp only [pruneRemovedProbes, removeProbe, JsMap.get?_filter, hu,
            JsMap.get?_set_of_ne hne]
        split <;> exact hset _ rfl
      · rfl
    · have hr : ∀ id, r ≠ .deleteProbe id := fun id h => hdel ⟨id, h⟩
      have hc := handle_changes cfg n₀ scope r s
      simp only [QueueTask.run]
      generalize (s.handle cfg n₀ scope r).1 = u at hc ⊢
      suffices (u.pruneRemovedProbes now).recentlyRemovedProbes =
          (s.pruneRemovedProbes now).recentlyRemovedProbes by rw [this]
      induction hc with
      | refl => rfl
      | tail _ hc ih =>
        rw [← ih]
        rcases recentlyRemovedProbes_change hc hr with h | h
        · simp only [pruneRemovedProbes, h]
        · exact pruneRemovedProbes_pruned hle h

/-! ### The state after a rollback -/

/-- The state after a rejected mutation: the snapshot is taken and the task run
at `n₀`, and the snapshot is loaded at `now`.  `none` when the snapshot throws,
as the mutation is not run then. -/
def rolledBack (cfg : Config) (n₀ now : ℕ) (task : QueueTask) (s : BrokerState) :
    Option BrokerState :=
  (s.snapshot n₀).map fun b => ((task.run cfg n₀ s).1.loadSnapshot cfg now b).1

/-- **A rollback brings back the state before, brought to the clock, less what
a snapshot does not hold.** -/
theorem alike_rolledBack {L : Limits} {n₀ : ℕ} {task : QueueTask} (hi : Indexed s)
    (h : Records cfg L s) (hle : n₀ ≤ now) (hu : s.rolledBack cfg n₀ now task = some u) :
    Alike now (s.expireDueProbes cfg now) u := by
  obtain ⟨b, hb, rfl⟩ := Option.map_eq_some_iff.mp hu
  rw [loadSnapshot_of_snapshot hb]
  refine Alike.expireDueProbes ?_ cfg
  generalize ht : (task.run cfg n₀ s).1 = t
  have hcore := core_refill cfg t hi hb
  simp only [core, Prod.mk.injEq] at hcore
  exact ⟨hcore.1, hcore.2.1, events_refill t h hb, services_refill t h hb, rfl,
    statuses_refill t h hb, hcore.2.2.1, rfl, nativeAgents_refill t h hb,
    nativeInstances_refill t h hb, fun id hid => ht ▸ removed_run cfg hle task s hid⟩

theorem alikeNative_rolledBack {L : Limits} {n₀ : ℕ} {task : QueueTask} (hi : Indexed s)
    (h : Records cfg L s) (hp : PlainNativeKeys s) (hle : n₀ ≤ now)
    (hu : s.rolledBack cfg n₀ now task = some u) :
    AlikeNative (fun id => s.probes.has id = true) (s.expireDueProbes cfg now) u := by
  obtain ⟨b, hb, rfl⟩ := Option.map_eq_some_iff.mp hu
  rw [loadSnapshot_of_snapshot hb]
  generalize ht : (task.run cfg n₀ s).1 = t
  have hcore := core_refill cfg t hi hb
  simp only [core, Prod.mk.injEq] at hcore
  have halike : Alike now s (t.refill cfg b) := ⟨hcore.1, hcore.2.1, events_refill t h hb,
    services_refill t h hb, rfl, statuses_refill t h hb, hcore.2.2.1, rfl,
    nativeAgents_refill t h hb, nativeInstances_refill t h hb,
    fun id hid => ht ▸ removed_run cfg hle task s hid⟩
  refine AlikeNative.expireDueProbes ⟨fun k hk => ?_, ?_⟩ halike cfg
  · rw [assignmentVersions_refill t h hp hb, JsMap.get?_filter_of_pos hk]
  · intro scope probeId version agentId instanceId buildId hid
    rw [nativeStatuses_refill t h hp hb]
    have hnul : nul ∉ probeId := by
      obtain ⟨p, hg⟩ := Option.isSome_iff_exists.mp hid
      exact nul_notMem_probeId (hi.probeId hg)
    refine JsMap.get?_filter_of_pos ?_
    rw [namesProbe, nativeStatusKey, splitNul_append (nul_notMem_resourceScopeKey scope),
      splitNul_append hnul]
    simpa using hid

end BrokerState
