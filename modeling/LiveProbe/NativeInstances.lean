/-
LiveProbe/NativeInstances.lean

The instances of native agents and their keys.

A replacement looks at the whole request before it writes anything, and what
passed the schema of the route also passes the schema of the stored record, so
it is done as a whole or not at all (`replaceNativeInstances_cases`), and no
identifier of a scope is held by two agents (`OwnedOnce`).  The keys of the maps
are texts with their parts between NUL units.  Identifiers that hold a NUL
themselves can be split in other places, so two agents may share a key
(`Sample.keys_shared`); the keys of identifiers without NUL are shared by
nothing else (`native_ownership`).
-/
import LiveProbe.LogicalStatus
import LiveProbe.NativeVerdict

open JsString Schema Broker Protocol BrokerState

namespace BrokerState

variable {cfg : Config} {L : Limits} {now : ℕ} {scope : ResourceScope} {r : Request}
  {s t : BrokerState} {agentId : JsString} {instances : List NativeInstance}
  {allowed : List JsString} {agent : NativeAgentRecord}

/-! ### Replacing -/

/-- A record of a valid instance of a registered agent passes its schema. -/
theorem instanceRecord_passes {i : NativeInstance}
    (hagent : AgentOk L (nativeAgentKey scope agentId) agent)
    (ha : agentIdSchema agentId = some agentId) (hi : nativeInstanceSchema i = some i) :
    persistedNativeInstanceSchema (instanceRecord scope agent agentId i) =
      some (instanceRecord scope agent agentId i) := by
  obtain ⟨hscope, -⟩ := nativeAgentKey_inj.mp hagent.key
  obtain ⟨-, hself⟩ := instanceRecord_passes_parts scope agent agentId hi
  have hscope' : resourceScopeSchema (instanceRecord scope agent agentId i).scope = some scope :=
    hscope ▸ hagent.scope
  have ha' : agentIdSchema (instanceRecord scope agent agentId i).agentId = some agentId := ha
  simp only [persistedNativeInstanceSchema, hself, hscope', ha', Option.bind_eq_bind,
    Option.bind_some, Option.pure_def]
  rfl

/-- The map after the loop that stores the reported instances. -/
def storeInstances (scope : ResourceScope) (agent : NativeAgentRecord) (agentId : JsString)
    (instances : List NativeInstance) (m : JsMap JsString NativeInstanceRecord) :
    JsMap JsString NativeInstanceRecord :=
  instances.foldl (fun m i =>
    m.set (nativeInstanceKey scope agentId i.instanceId) (instanceRecord scope agent agentId i)) m

theorem setInstances_of_passes
    (h : ∀ i ∈ instances, persistedNativeInstanceSchema (instanceRecord scope agent agentId i) =
      some (instanceRecord scope agent agentId i)) :
    s.setInstances scope agent agentId instances =
      ({ s with nativeInstances := storeInstances scope agent agentId instances s.nativeInstances },
        .ok ()) := by
  induction instances generalizing s with
  | nil => rfl
  | cons i instances ih =>
    unfold setInstances
    rw [h i List.mem_cons_self]
    dsimp only
    rw [ih fun j hj => h j (List.mem_cons_of_mem _ hj)]
    rfl

/-- The instances once an agent has reported some. -/
def replacedInstances (s : BrokerState) (scope : ResourceScope) (agent : NativeAgentRecord)
    (agentId : JsString) (instances : List NativeInstance) : JsMap JsString NativeInstanceRecord :=
  storeInstances scope agent agentId instances
    (s.dropInstances scope agentId (instances.map (·.instanceId))).nativeInstances

/-- A replacement that passes its checks is carried out; the assignments change
when the identities of the instances do. -/
theorem replaceNativeInstances_settled (now : ℕ) (h : s.nativeAgents.All (AgentOk L))
    (hv : (Request.replaceNativeInstances agentId instances allowed).Valid)
    (hagent : s.nativeAgents.get? (nativeAgentKey scope agentId) = some agent)
    (hchecked : checkInstances (s.ownedByAnother scope agentId) allowed [] instances = .ok ()) :
    s.replaceNativeInstances now agentId instances scope allowed =
      (({ s with nativeInstances := s.replacedInstances scope agent agentId instances }).settleInstances
        now scope agent agentId
        (!((s.agentInstances scope agentId).map fun i : NativeInstanceRecord =>
            nativeAttachmentIdentity i.toNativeInstance []).isPerm
          (instances.map fun i => nativeAttachmentIdentity i agent.capabilities)),
        .ok instances.length) := by
  obtain ⟨hv', -⟩ := boundedArray_self.mp hv.2
  have hset := setInstances_of_passes
    (s := s.dropInstances scope agentId (instances.map (·.instanceId))) fun i hi =>
    instanceRecord_passes (h _ _ hagent) hv.1 (hv' i hi)
  simp only [replaceNativeInstances, hagent, hchecked, hset]
  rfl

theorem replaceNativeInstances_ok (now : ℕ) (h : s.nativeAgents.All (AgentOk L))
    (hv : (Request.replaceNativeInstances agentId instances allowed).Valid)
    (hagent : s.nativeAgents.get? (nativeAgentKey scope agentId) = some agent)
    (hchecked : checkInstances (s.ownedByAnother scope agentId) allowed [] instances = .ok ()) :
    ∃ changed, s.replaceNativeInstances now agentId instances scope allowed =
      (({ s with nativeInstances := s.replacedInstances scope agent agentId instances }).settleInstances
        now scope agent agentId changed, .ok instances.length) :=
  ⟨_, replaceNativeInstances_settled now h hv hagent hchecked⟩

/-- **A replacement is done as a whole or leaves everything as it is.** -/
theorem replaceNativeInstances_cases (now : ℕ) (scope : ResourceScope)
    (h : s.nativeAgents.All (AgentOk L))
    (hv : (Request.replaceNativeInstances agentId instances allowed).Valid) :
    (∃ e, s.replaceNativeInstances now agentId instances scope allowed = (s, .error e)) ∨
      ∃ agent changed, s.replaceNativeInstances now agentId instances scope allowed =
        (({ s with nativeInstances := s.replacedInstances scope agent agentId instances }).settleInstances
          now scope agent agentId changed, .ok instances.length) := by
  rcases hagent : s.nativeAgents.get? (nativeAgentKey scope agentId) with - | agent
  · left
    simp only [replaceNativeInstances, hagent]
    exact ⟨_, rfl⟩
  rcases hchecked : checkInstances (s.ownedByAnother scope agentId) allowed [] instances with e | ⟨⟩
  · left
    simp only [replaceNativeInstances, hagent, hchecked]
    exact ⟨e, rfl⟩
  · obtain ⟨changed, heq⟩ := replaceNativeInstances_ok now h hv hagent hchecked
    exact .inr ⟨agent, changed, heq⟩

/-- Where the instances of a replacement come from. -/
theorem replacedInstances_all (P : JsString → NativeInstanceRecord → Prop)
    (hold : ∀ k i, s.nativeInstances.get? k = some i →
      (i.scope = scope → i.agentId = agentId → ∃ j ∈ instances, j.instanceId = i.instanceId) → P k i)
    (hnew : ∀ i ∈ instances, P (nativeInstanceKey scope agentId i.instanceId)
      (instanceRecord scope agent agentId i)) :
    (s.replacedInstances scope agent agentId instances).All P := by
  refine JsMap.All.foldl (fun m i hi hm => hm.set (hnew i hi)) fun k i hk => ?_
  change (s.nativeInstances.filter _).get? k = some i at hk
  rw [JsMap.get?_filter, Option.filter_eq_some_iff] at hk
  refine hold k i hk.1 fun hscope hagent => ?_
  by_contra hnone
  have hmem : i.instanceId ∉ instances.map (·.instanceId) := by
    intro hmem
    obtain ⟨j, hj, heq⟩ := List.mem_map.mp hmem
    exact hnone ⟨j, hj, heq⟩
  have hdropped := hk.2
  rw [decide_eq_true hscope, decide_eq_true hagent, decide_eq_true hmem] at hdropped
  cases hdropped

/-- What a replacement leaves of the instances. -/
theorem nativeInstances_settleInstances (s : BrokerState) (changed : Bool) :
    (s.settleInstances now scope agent agentId changed).nativeInstances = s.nativeInstances := rfl

/-- The instances change by a replacement. -/
theorem nativeInstances_change (h : s.nativeAgents.All (AgentOk L)) (hv : r.Valid)
    (hc : Change cfg now scope r s t) :
    t.nativeInstances = s.nativeInstances ∨
      ∃ agentId instances allowed agent, r = .replaceNativeInstances agentId instances allowed ∧
        s.nativeAgents.get? (nativeAgentKey scope agentId) = some agent ∧
        checkInstances (s.ownedByAnother scope agentId) allowed [] instances = .ok () ∧
        t.nativeInstances = s.replacedInstances scope agent agentId instances := by
  rcases keepsProbes_or hc with hsame | hc
  · exact .inl hsame.nativeInstances
  cases hc with
  | expire =>
    left
    obtain ⟨_, _, _, _, _, h⟩ := frame_expireDueProbes cfg now s
    rw [h]
  | create => exact .inl rfl
  | delete id stored _ _ _ t hsame => exact .inl hsame.nativeInstances
  | event input e =>
    left
    obtain ⟨_, _, h⟩ := ingestEvent_eq cfg s e
    rw [h]
    rfl
  | replace agentId instances allowed agent isReplace registered checked =>
    subst isReplace
    right
    refine ⟨agentId, instances, allowed, agent, rfl, registered, checked, ?_⟩
    obtain ⟨changed, heq⟩ := replaceNativeInstances_ok now h hv registered checked
    rw [heq, nativeInstances_settleInstances]
  | prune => exact .inl rfl
  | nativeEvent input stored e => exact .inl (nativeInstances_ingestNativeEvent input s e)

/-! ### Ownership -/

/-- No identifier of a scope is held by two agents. -/
def OwnedOnce (s : BrokerState) : Prop :=
  ∀ i ∈ s.nativeInstances.values, ∀ j ∈ s.nativeInstances.values,
    i.scope = j.scope → i.instanceId = j.instanceId → i.agentId = j.agentId

/-- Instances that passed the check of a replacement are held by no other agent. -/
theorem checkInstances_eq_ok {owned : JsString → Bool} {ids : List JsString}
    (h : checkInstances owned allowed ids instances = .ok ()) :
    ∀ i ∈ instances, owned i.instanceId = false := by
  induction instances generalizing ids with
  | nil => exact fun i hi => absurd hi List.not_mem_nil
  | cons i instances ih =>
    unfold checkInstances at h
    split at h
    · cases h
    split at h
    · cases h
    split at h
    · cases h
    · next hfree =>
      rintro j (- | ⟨_, hj⟩)
      · exact Bool.eq_false_of_not_eq_true hfree
      · exact ih h j hj

/-- An instance that is reported under an identifier it holds already is the agent's own. -/
theorem agentId_of_checked (h : checkInstances (s.ownedByAnother scope agentId) allowed [] instances = .ok ())
    {i : NativeInstance} (hi : i ∈ instances) {j : NativeInstanceRecord} (hj : j ∈ s.nativeInstances.values)
    (hscope : j.scope = scope) (hid : j.instanceId = i.instanceId) : j.agentId = agentId := by
  have hfree := List.any_eq_false.mp (checkInstances_eq_ok h i hi) j hj
  rw [decide_eq_true hscope, decide_eq_true hid, Bool.true_and, Bool.true_and] at hfree
  simpa using hfree

theorem OwnedOnce.replace (h : OwnedOnce s)
    (hchecked : checkInstances (s.ownedByAnother scope agentId) allowed [] instances = .ok ())
    (ht : t.nativeInstances = s.replacedInstances scope agent agentId instances) : OwnedOnce t := by
  -- an instance afterwards is an old one or a reported one
  have hfrom : ∀ i ∈ t.nativeInstances.values, i ∈ s.nativeInstances.values ∨
      (i.scope = scope ∧ i.agentId = agentId ∧ ∃ j ∈ instances, i.instanceId = j.instanceId) := by
    have hall : t.nativeInstances.All fun _ i => i ∈ s.nativeInstances.values ∨
        (i.scope = scope ∧ i.agentId = agentId ∧ ∃ j ∈ instances, i.instanceId = j.instanceId) := by
      rw [ht]
      refine replacedInstances_all _ (fun k i hk _ => .inl ?_) fun i hi => .inr ⟨rfl, rfl, i, hi, rfl⟩
      exact JsMap.mem_values_iff.mpr ⟨k, JsMap.get?_eq_some_iff.mp hk⟩
    intro i hi
    obtain ⟨k, hk⟩ := JsMap.mem_values_iff.mp hi
    exact hall k i (JsMap.get?_eq_some_iff.mpr hk)
  intro i hi j hj hscope hid
  rcases hfrom i hi with hi | ⟨his, hia, i', hi', hii⟩ <;> rcases hfrom j hj with hj | ⟨hjs, hja, j', hj', hjj⟩
  · exact h i hi j hj hscope hid
  · exact (agentId_of_checked hchecked hj' hi (hscope.trans hjs) (hid.trans hjj)).trans hja.symm
  · exact hia.trans (agentId_of_checked hchecked hi' hj (hscope.symm.trans his) (hid.symm.trans hii)).symm
  · exact hia.trans hja.symm

theorem OwnedOnce.congr (h : OwnedOnce s) (ht : t.nativeInstances = s.nativeInstances) : OwnedOnce t := by
  rw [OwnedOnce, ht]
  exact h

theorem OwnedOnce.expireDueProbes (h : OwnedOnce s) : OwnedOnce (s.expireDueProbes cfg now) := by
  obtain ⟨_, _, _, _, _, heq⟩ := frame_expireDueProbes cfg now s
  rw [heq]
  exact h.congr rfl

theorem OwnedOnce.change (h : OwnedOnce s) (hagents : s.nativeAgents.All (AgentOk L)) (hv : r.Valid)
    (hc : Change cfg now scope r s t) : OwnedOnce t := by
  rcases nativeInstances_change hagents hv hc with ht | ⟨agentId, instances, allowed, agent, -, -, hchecked, ht⟩
  · exact h.congr ht
  · exact h.replace hchecked ht

/-! ### Keys -/

/-- The keys of identifiers without NUL are shared by no others. -/
theorem nativeStatusKey_plain {a b : ResourceScope} {probeId probeId' x y x' y' buildId buildId' : JsString}
    {version version' : ℕ} (hp : probeIdSchema probeId = some probeId)
    (hp' : probeIdSchema probeId' = some probeId') (hb : buildIdSchema buildId = some buildId)
    (hb' : buildIdSchema buildId' = some buildId') (hx : nul ∉ x) (hy : nul ∉ y)
    (h : nativeStatusKey a probeId' version' x' y' buildId' = nativeStatusKey b probeId version x y buildId) :
    a = b ∧ probeId' = probeId ∧ version' = version ∧ x' = x ∧ y' = y ∧ buildId' = buildId := by
  obtain ⟨hs, h⟩ := scopeKey_append_inj h
  obtain ⟨hprobe, h⟩ := append_nul_inj (nul_notMem_probeId hp') (nul_notMem_probeId hp) h
  obtain ⟨hversion, h⟩ := append_nul_inj (nul_notMem_decimal _) (nul_notMem_decimal _) h
  have hassoc : ∀ x y buildId : JsString,
      x ++ nul :: (y ++ nul :: buildId) = (x ++ nul :: y) ++ nul :: buildId := by
    intro x y buildId
    rw [List.append_assoc, List.cons_append]
  rw [hassoc, hassoc] at h
  obtain ⟨hids, hbuild⟩ := append_nul_inj_right (nul_notMem_buildId hb') (nul_notMem_buildId hb) h
  have hkey : nativeInstanceKey a x' y' = nativeInstanceKey a x y := by
    simp only [nativeInstanceKey, nativeAgentKey, List.append_assoc, List.cons_append, hids]
  obtain ⟨-, hx', hy'⟩ := nativeInstanceKey_plain hx hy hkey
  exact ⟨hs, hprobe, decimal_injective hversion, hx', hy', hbuild⟩

end BrokerState

/-! ### Runs -/

namespace Process

variable {cfg : Config}

/-- **The ownership of native instances.**  In every state of a run no identifier
is held by two agents and a replacement that throws changes nothing; the keys of
identifiers without NUL are shared by no others. -/
theorem native_ownership {p : Process} (h : Reached (next cfg) (fun _ e => Valid e) {} p) :
    OwnedOnce p.state ∧
    (∀ now scope agentId instances allowed e,
      (Request.replaceNativeInstances agentId instances allowed).Valid →
        (p.state.replaceNativeInstances now agentId instances scope allowed).2 = .error e →
          (p.state.replaceNativeInstances now agentId instances scope allowed).1 = p.state) ∧
    (∀ (a b : ResourceScope) (x y x' y' : JsString), nul ∉ x → nul ∉ y →
      nativeInstanceKey a x' y' = nativeInstanceKey b x y → a = b ∧ x' = x ∧ y' = y) ∧
    ∀ (a b : ResourceScope) (probeId probeId' x y x' y' buildId buildId' : JsString)
      (version version' : ℕ), probeIdSchema probeId = some probeId →
        probeIdSchema probeId' = some probeId' → buildIdSchema buildId = some buildId →
        buildIdSchema buildId' = some buildId' → nul ∉ x → nul ∉ y →
        nativeStatusKey a probeId' version' x' y' buildId' =
          nativeStatusKey b probeId version x y buildId →
        a = b ∧ probeId' = probeId ∧ version' = version ∧ x' = x ∧ y' = y ∧ buildId' = buildId := by
  have hinv : (Indexed p.state ∧ Records cfg .schemas p.state) ∧ OwnedOnce p.state := by
    refine invariant_since (I := fun s => (Indexed s ∧ Records cfg .schemas s) ∧ OwnedOnce s)
      ⟨⟨.init, .init⟩, fun i hi => absurd hi List.not_mem_nil⟩ ?_ ?_ ?_ h
    · rintro p now scope r ⟨⟨hi, hr⟩, ho⟩ hv
      have hL := Limits.schemas_admits now scope r
      refine ⟨⟨hi.handle hv, hr.handle hi hv hL⟩, ?_⟩
      exact hr.changes_induction hi hv ho (fun u v _ hu hou hc => hou.change hu.nativeAgents hv hc)
        (handle_changes cfg now scope r p.state)
    · rintro p now ⟨⟨hi, hr⟩, ho⟩ -
      exact ⟨⟨hi.expireDueProbes, hr.expireDueProbes hi trivial⟩, ho.expireDueProbes⟩
    · rintro p e now - - s t b n ⟨⟨hi, hr⟩, ho⟩ hb
      have hback : OwnedOnce (t.refill cfg b) := ho.congr (nativeInstances_refill t hr hb)
      refine ⟨⟨?_, hr.loadSnapshot t hi hb trivial⟩, ?_⟩
      · rw [loadSnapshot_of_snapshot hb]
        exact (Indexed.refill (snapshotSchema_eq_some.mp hb)).expireDueProbes
      · rw [loadSnapshot_of_snapshot hb]
        exact hback.expireDueProbes
  obtain ⟨⟨-, hr⟩, ho⟩ := hinv
  refine ⟨ho, fun now scope agentId instances allowed e hv herror => ?_,
    fun a b x y x' y' hx hy => nativeInstanceKey_plain hx hy, fun a b _ _ _ _ _ _ _ _ _ _ hp hp' hb hb' hx hy =>
      nativeStatusKey_plain hp hp' hb hb' hx hy⟩
  rcases replaceNativeInstances_cases now scope hr.nativeAgents hv with
    ⟨e', heq⟩ | ⟨agent, changed, heq⟩
  · rw [heq]
  · rw [heq] at herror
    cases herror

end Process

namespace Sample

theorem hosted_owned :
    OwnedOnce hosted.state ∧ ∀ b x y, nativeInstanceKey b x y = nativeInstanceKey scope agent instanceA →
      b = scope ∧ x = agent ∧ y = instanceA := by
  have hown := Process.native_ownership hosted_reached
  have hagent : nul ∉ agent := by decide
  have hinstance : nul ∉ instanceA := by decide
  exact ⟨hown.1, fun b x y => hown.2.2.1 b scope agent instanceA x y hagent hinstance⟩

/-- Two agents whose identifiers hold a NUL share the keys of their instances and statuses. -/
theorem keys_shared :
    ∃ x y x' y', (Protocol.agentIdSchema x = some x ∧ Protocol.instanceIdSchema y = some y) ∧
      (Protocol.agentIdSchema x' = some x' ∧ Protocol.instanceIdSchema y' = some y') ∧
      x ≠ x' ∧ (∀ scope, nativeInstanceKey scope x y = nativeInstanceKey scope x' y') ∧
      ∀ scope probeId version buildId, nativeStatusKey scope probeId version x y buildId =
        nativeStatusKey scope probeId version x' y' buildId := by
  have hkey : ∀ scope, nativeInstanceKey scope (js "a" ++ nul :: js "b") (js "c") =
      nativeInstanceKey scope (js "a") (js "b" ++ nul :: js "c") := by
    intro scope
    simp only [nativeInstanceKey, nativeAgentKey, List.append_assoc, List.cons_append]
  refine ⟨js "a" ++ nul :: js "b", js "c", js "a", js "b" ++ nul :: js "c", ?_, ?_, ?_, hkey, ?_⟩
  · decide
  · decide
  · decide
  · exact fun scope probeId version buildId =>
      (nativeStatusKey_congr (hkey scope) probeId version buildId).2

end Sample
