/-
LiveProbe/Agreement.lean

The desired state of the native agent and of the broker.

The broker bumps the version of an agent's assignments with every change of
what it assigns, and answers a poll since the current version with an empty
list.  The agent keeps three things: the version it polls since, the version its
plan was made for, and the plan.  A plan that is complete moves both versions; a
plan that has to be tried again moves neither, and clears the second.

So the version of the plan, when there is one, is the one polled since, and when
there is none the next answer is a full one.
-/
import LiveProbe.HitLimit

namespace NativeAgent

/-! ### The broker's side -/

/-- What the broker has of one agent: the instances as the agent reported them,
and the probes it assigns to each. -/
structure Broker where
  version : ℕ
  instances : List DiscoveredInstance
  probes : DiscoveredInstance → List ProbeAssignment

/-- The desired set of the agent, within the services it is allowed. -/
def Broker.desired (allowed : String → Bool) (b : Broker) : List (DiscoveredInstance × List ProbeAssignment) :=
  (b.instances.filter fun i => allowed i.serviceId).map fun i => (i, b.probes i)

def assignmentOf (e : DiscoveredInstance × List ProbeAssignment) : Assignment where
  instanceId := e.1.instanceId
  buildId := e.1.buildId
  probes := e.2

/-- `nativeAssignments`. -/
def Broker.nativeAssignments (allowed : String → Bool) (since : ℕ) (b : Broker) : Assignments :=
  if since = b.version then { version := b.version, assignments := [] }
  else { version := b.version, assignments := (b.desired allowed).map assignmentOf }

/-- Every change of the desired set bumps the version. -/
structure Broker.Bumps (allowed : String → Bool) (b b' : Broker) : Prop where
  le : b.version ≤ b'.version
  lt : b'.desired allowed ≠ b.desired allowed → b.version < b'.version

/-- What else happens at the broker: probes come and go, instances are dropped. -/
structure Broker.Changes (allowed : String → Bool) (b b' : Broker) : Prop
    extends Broker.Bumps allowed b b' where
  instances : b'.instances ⊆ b.instances

/-- `replaceNativeInstances`. -/
structure Broker.Replaces (allowed : String → Bool) (instances : List DiscoveredInstance) (b b' : Broker) :
    Prop extends Broker.Bumps allowed b b' where
  instances : b'.instances = instances

/-- Registering, reporting the instances and polling, with other changes at any
time.  A call that fails may have been performed. -/
inductive Broker.Polls (allowed : String → Bool) (instances : List DiscoveredInstance) (since : ℕ) :
    Broker → Option Assignments → Broker → Prop
  | unreported {b b' : Broker} (changes : b.Changes allowed b') : Polls allowed instances since b none b'
  | reported {b b₁ b₂ b' : Broker} (before : b.Changes allowed b₁) (replaces : b₁.Replaces allowed instances b₂)
      (changes : b₂.Changes allowed b') : Polls allowed instances since b none b'
  | answered {b b₁ b₂ b₃ b' : Broker} (before : b.Changes allowed b₁)
      (replaces : b₁.Replaces allowed instances b₂) (between : b₂.Changes allowed b₃)
      (changes : b₃.Changes allowed b') :
      Polls allowed instances since b (some (b₃.nativeAssignments allowed since)) b'

/-! ### What can be planned -/

/-- The sites of a probe, by site id. -/
def plannableProbe (symbols : Symbols) (target : DiscoveredInstance) (path : String)
    (probe : ProbeAssignment) : List (String × PlannedSite × DiscoveredInstance) :=
  match planProbe symbols target probe path with
  | .ok sites => sites.map fun site => (site.siteId, site, target)
  | .error _ => []

def plannableSites (symbols : Symbols) (e : DiscoveredInstance × List ProbeAssignment) :
    List (String × PlannedSite × DiscoveredInstance) :=
  match symbols.debugArtifact e.1 with
  | .ok (some path) => e.2.flatMap (plannableProbe symbols e.1 path)
  | _ => []

/-- The plannable sites of a desired set. -/
def plannable (symbols : Symbols) (desired : List (DiscoveredInstance × List ProbeAssignment)) : Desired :=
  JsMap.ofEntries (desired.flatMap (plannableSites symbols))

/-- A failure to get a debug artifact after which the agent tries again. -/
def Temporary (detail : String) : Prop :=
  permanentReasonFromError detail = none ∨ permanentReasonFromError detail = some "no-debug-info"

/-- What a cycle finds is what there is, up to temporary failures. -/
structure Symbols.Sees (symbols found : Symbols) : Prop where
  debugArtifact : ∀ target, found.debugArtifact target = symbols.debugArtifact target ∨
    found.debugArtifact target = .ok none ∨
    ∃ detail, found.debugArtifact target = .error detail ∧ Temporary detail
  planSites : ∀ target probe path, found.planSites target probe path = symbols.planSites target probe path ∨
    ∃ detail, found.planSites target probe path = .error detail ∧ planningErrorShouldRetry detail = true

/-- The states of agent and broker between the cycles of a run. -/
inductive AgreementRun (config : SafetyConfig) (symbols : Symbols) (allowed : String → Bool) :
    World → Broker → Prop
  /-- a broker that never changed what it assigns assigns nothing -/
  | start (identity : LoaderIdentity) {b : Broker} (fresh : b.version = 0 → b.desired allowed = []) :
      AgreementRun config symbols allowed (.start identity) b
  | broker {w : World} {b b' : Broker} (run : AgreementRun config symbols allowed w b)
      (changes : b.Changes allowed b') : AgreementRun config symbols allowed w b'
  | cycle {w : World} {b b' : Broker} {cycle : Cycle} (run : AgreementRun config symbols allowed w b)
      (sees : symbols.Sees cycle.symbols)
      (polls : b.Polls allowed (w.state.reconcile cycle).registry.values w.state.assignmentVersion
        (cycle.poll (w.state.reconcile cycle).registry.values w.state.assignmentVersion) b') :
      AgreementRun config symbols allowed (w.reconcile config cycle) b'

/-! ### A complete rebuild -/

section
variable {symbols found : Symbols} {registry : JsMap String DiscoveredInstance} {acc : Rebuild}

/-- Setting a list of entries, as `JsMap.ofEntries` does. -/
def setEntries (entries : List (String × PlannedSite × DiscoveredInstance)) (desired : Desired) : Desired :=
  entries.foldl (fun desired e => desired.set e.1 e.2) desired

theorem setEntries_append (es es' : List (String × PlannedSite × DiscoveredInstance)) (desired : Desired) :
    setEntries (es ++ es') desired = setEntries es' (setEntries es desired) := List.foldl_append

theorem insertSites_eq (target : DiscoveredInstance) (sites : List PlannedSite) (desired : Desired) :
    insertSites target sites desired
      = setEntries (sites.map fun site => (site.siteId, site, target)) desired := by
  unfold insertSites setEntries
  rw [List.foldl_map]

/-- What a complete turn of the rebuild did. -/
structure Rebuild.Adds (acc acc' : Rebuild) (entries : List (String × PlannedSite × DiscoveredInstance)) :
    Prop where
  complete : acc'.retryRequired = false → acc.retryRequired = false
  rebuilt : acc'.retryRequired = false → acc'.rebuilt = setEntries entries acc.rebuilt

theorem Rebuild.Adds.same (acc : Rebuild) : acc.Adds acc [] := ⟨id, fun _ => rfl⟩

theorem Rebuild.Adds.trans {acc' acc'' : Rebuild} {es es' : List (String × PlannedSite × DiscoveredInstance)}
    (h : acc.Adds acc' es) (h' : acc'.Adds acc'' es') : acc.Adds acc'' (es ++ es') where
  complete := fun hdone => h.complete (h'.complete hdone)
  rebuilt := by
    intro hdone
    rw [h'.rebuilt hdone, h.rebuilt (h'.complete hdone), setEntries_append]

/-- A turn that has to be made again adds anything. -/
theorem Rebuild.Adds.retry {acc' : Rebuild} (hretry : acc'.retryRequired = true)
    (es : List (String × PlannedSite × DiscoveredInstance)) : acc.Adds acc' es where
  complete := fun hdone => absurd hdone (by rw [hretry]; simp)
  rebuilt := fun hdone => absurd hdone (by rw [hretry]; simp)

theorem Rebuild.Adds.foldl {α : Type} {f : Rebuild → α → Rebuild}
    {entries : α → List (String × PlannedSite × DiscoveredInstance)} {l : List α}
    (h : ∀ a ∈ l, ∀ acc : Rebuild, acc.Adds (f acc a) (entries a)) :
    acc.Adds (l.foldl f acc) (l.flatMap entries) := by
  induction l generalizing acc with
  | nil => exact .same acc
  | cons a l ih =>
    rw [List.foldl_cons, List.flatMap_cons]
    exact (h a List.mem_cons_self acc).trans (ih fun a' ha' => h a' (List.mem_cons_of_mem a ha'))

theorem rebuildProbe_adds (sees : symbols.Sees found) (target : DiscoveredInstance) (path : String)
    (probe : ProbeAssignment) :
    acc.Adds (rebuildProbe found target (some path) acc probe) (plannableProbe symbols target path probe) := by
  have hretry : ∀ detail, planningErrorShouldRetry detail = true →
      planProbe found target probe path = .error detail →
        acc.Adds (rebuildProbe found target (some path) acc probe)
          (plannableProbe symbols target path probe) := by
    intro detail htemporary hfound
    refine .retry ?_ _
    unfold rebuildProbe
    simp only [hfound, htemporary, if_true]
  rcases sees.planSites target probe path with hsame | ⟨detail, hfound, htemporary⟩
  · have hplan : planProbe found target probe path = planProbe symbols target probe path := by
      unfold planProbe
      rw [hsame]
    cases hplanned : planProbe symbols target probe path with
    | ok sites =>
      unfold rebuildProbe plannableProbe
      simp only [hplan, hplanned]
      exact ⟨id, fun _ => insertSites_eq target sites acc.rebuilt⟩
    | error detail =>
      by_cases htemporary : planningErrorShouldRetry detail = true
      · exact hretry detail htemporary (hplan.trans hplanned)
      · unfold rebuildProbe plannableProbe
        simp only [hplan, hplanned, if_neg htemporary]
        exact .same acc
  · refine hretry detail htemporary ?_
    unfold planProbe
    rw [hfound]
    rfl

/-- A probe without a debug artifact is tried again. -/
theorem rebuildProbe_none_adds (target : DiscoveredInstance) (probe : ProbeAssignment)
    (es : List (String × PlannedSite × DiscoveredInstance)) :
    acc.Adds (rebuildProbe found target none acc probe) es := by
  refine .retry ?_ es
  have hretry : planningErrorShouldRetry "no-debug-info" = true := by
    simp [planningErrorShouldRetry, contains]
  unfold rebuildProbe
  simp only [hretry, if_true]

theorem rebuildAssignment_adds (sees : symbols.Sees found) {e : DiscoveredInstance × List ProbeAssignment}
    (hregistry : registry.get? e.1.instanceId = some e.1) :
    acc.Adds (rebuildAssignment found registry acc (assignmentOf e)) (plannableSites symbols e) := by
  have hnone : ∀ entries : ProbeAssignment → List (String × PlannedSite × DiscoveredInstance),
      acc.Adds (e.2.foldl (rebuildProbe found e.1 none) acc) (e.2.flatMap entries) := fun entries =>
    .foldl fun probe _ acc => rebuildProbe_none_adds e.1 probe (entries probe)
  -- the assignment is of a registered instance, and of its build
  unfold rebuildAssignment assignmentOf
  dsimp only
  rw [hregistry]
  dsimp only
  rw [if_neg (not_not.mpr rfl)]
  rcases sees.debugArtifact e.1 with hsame | hmissing | ⟨detail, hfound, htemporary⟩
  · rw [hsame]
    unfold plannableSites
    rcases symbols.debugArtifact e.1 with detail | _ | path
    · dsimp only
      split
      · exact .retry rfl _
      · exact .same acc
    · have hempty := hnone fun _ => []
      rw [List.flatMap_eq_nil_iff.mpr (fun _ _ => rfl)] at hempty
      exact hempty
    · exact .foldl fun probe _ acc => rebuildProbe_adds sees e.1 path probe
  · rw [hmissing]
    unfold plannableSites
    rcases symbols.debugArtifact e.1 with detail | _ | path
    · have hempty := hnone fun _ => []
      rw [List.flatMap_eq_nil_iff.mpr (fun _ _ => rfl)] at hempty
      exact hempty
    · have hempty := hnone fun _ => []
      rw [List.flatMap_eq_nil_iff.mpr (fun _ _ => rfl)] at hempty
      exact hempty
    · exact hnone _
  · rw [hfound]
    unfold Temporary at htemporary
    dsimp only
    rw [if_pos htemporary]
    exact .retry rfl _

/-- A rebuild that has not to be made again holds exactly the plannable sites. -/
theorem rebuild_eq_plannable (sees : symbols.Sees found)
    {desired : List (DiscoveredInstance × List ProbeAssignment)}
    (hregistry : ∀ e ∈ desired, registry.get? e.1.instanceId = some e.1)
    (hdone : ((desired.map assignmentOf).foldl (rebuildAssignment found registry) {}).retryRequired = false) :
    ((desired.map assignmentOf).foldl (rebuildAssignment found registry) {}).rebuilt
      = plannable symbols desired := by
  rw [List.foldl_map] at hdone ⊢
  have hadds : Rebuild.Adds {} (desired.foldl
      (fun acc e => rebuildAssignment found registry acc (assignmentOf e)) {})
      (desired.flatMap (plannableSites symbols)) :=
    .foldl fun e he acc => rebuildAssignment_adds sees (hregistry e he)
  exact hadds.rebuilt hdone

end

/-! ### Agreement -/

/-- The agent's registry has every instance under its own id. -/
def DesiredState.Registered (s : DesiredState) : Prop :=
  s.registry.All fun instanceId i => instanceId = i.instanceId

/-- What holds of agent and broker between cycles. -/
structure Agrees (symbols : Symbols) (allowed : String → Bool) (s : DesiredState) (b : Broker) : Prop where
  fresh : b.version = 0 → b.desired allowed = []
  le : s.assignmentVersion ≤ b.version
  /-- the plan was made for the version polled since -/
  cached : ∀ v, s.cachedAssignmentVersion = some v → v = s.assignmentVersion
  /-- without a complete plan the next answer is a full one, or nothing was ever desired -/
  uncached : s.cachedAssignmentVersion = none →
    s.assignmentVersion < b.version ∨ s.assignmentVersion = 0 ∧ s.cachedDesired = ∅
  agrees : s.cachedAssignmentVersion = some b.version → s.cachedDesired = plannable symbols (b.desired allowed)
  registered : s.Registered

section
variable {symbols : Symbols} {allowed : String → Bool} {s : DesiredState} {b b' : Broker} {cycle : Cycle}

theorem Broker.Bumps.fresh (h : b.Bumps allowed b') (hfresh : b.version = 0 → b.desired allowed = []) :
    b'.version = 0 → b'.desired allowed = [] := by
  intro hzero
  have hb : b.version = 0 := Nat.eq_zero_of_le_zero (hzero ▸ h.le)
  by_contra hchanged
  have hlt := h.lt (by rw [hfresh hb]; exact hchanged)
  omega

theorem Broker.Bumps.desired_eq (h : b.Bumps allowed b') (hversion : b'.version ≤ b.version) :
    b'.desired allowed = b.desired allowed := by
  by_contra hchanged
  exact absurd (h.lt hchanged) (Nat.not_lt.mpr hversion)

/-- Changes at the broker alone. -/
theorem Agrees.broker (h : Agrees symbols allowed s b) (hbumps : b.Bumps allowed b') :
    Agrees symbols allowed s b' where
  fresh := hbumps.fresh h.fresh
  le := h.le.trans hbumps.le
  cached := h.cached
  uncached := fun hnone => (h.uncached hnone).imp_left fun hlt => hlt.trans_le hbumps.le
  agrees := by
    intro hcached
    have hv : b'.version = s.assignmentVersion := h.cached _ hcached
    have hversion : b'.version = b.version := le_antisymm (hv.trans_le h.le) hbumps.le
    rw [hbumps.desired_eq hversion.le]
    exact h.agrees (hversion ▸ hcached)
  registered := h.registered

theorem DesiredState.Registered.reconcile (h : s.Registered) (cycle : Cycle) : (s.reconcile cycle).Registered := by
  unfold DesiredState.reconcile
  cases cycle.discovered with
  | none => exact h
  | some instances =>
    refine JsMap.All.ofEntries fun e he => ?_
    obtain ⟨i, -, rfl⟩ := List.mem_map.mp he
    rfl

theorem DesiredState.Registered.get? (h : s.Registered) {i : DiscoveredInstance} (hi : i ∈ s.registry.values) :
    s.registry.get? i.instanceId = some i := by
  obtain ⟨instanceId, hentry⟩ := JsMap.mem_values_iff.mp hi
  have hget := JsMap.get?_eq_some_iff.mpr hentry
  have hid : instanceId = i.instanceId := h instanceId i hget
  rw [hid] at hget
  exact hget

/-- An answer that does not move the agent. -/
theorem DesiredState.next_of_none (h : cycle.poll s.registry.values s.assignmentVersion = none) :
    s.next cycle = (s, s.cachedDesired) := by
  unfold next
  rw [h]

theorem DesiredState.next_of_cached {answer : Assignments}
    (h : cycle.poll s.registry.values s.assignmentVersion = some answer)
    (hcached : s.cachedAssignmentVersion = some answer.version) : s.next cycle = (s, s.cachedDesired) := by
  unfold next
  rw [h]
  simp only [hcached, if_true]

/-- The desired sites of a cycle are the ones kept for the next. -/
theorem DesiredState.next_desired (s : DesiredState) : (s.next cycle).2 = (s.next cycle).1.cachedDesired := by
  unfold next
  split
  · rfl
  · split
    · rfl
    · dsimp only
      split <;> rfl

/-- The answer to a poll since the current version changes nothing that is desired. -/
theorem Agrees.unchanged (h : Agrees symbols allowed s b)
    (hpoll : cycle.poll s.registry.values s.assignmentVersion
      = some (b.nativeAssignments allowed s.assignmentVersion))
    (hsince : s.assignmentVersion = b.version) :
    (s.next cycle).1.cachedDesired = s.cachedDesired ∧ Agrees symbols allowed (s.next cycle).1 b := by
  have hanswer : b.nativeAssignments allowed s.assignmentVersion
      = { version := b.version, assignments := [] } := by
    unfold Broker.nativeAssignments
    rw [if_pos hsince]
  rw [hanswer] at hpoll
  cases hcached : s.cachedAssignmentVersion with
  | some v =>
    have hv : v = b.version := (h.cached v hcached).trans hsince
    rw [DesiredState.next_of_cached hpoll (by rw [hcached, hv])]
    exact ⟨rfl, h⟩
  | none =>
    -- without a plan the version polled since is behind, unless nothing was ever desired
    obtain ⟨hzero, hempty⟩ := (h.uncached hcached).resolve_left (by omega)
    have hnext : (s.next cycle).1 = { s with
        assignmentVersion := b.version, cachedAssignmentVersion := some b.version, cachedDesired := ∅ } := by
      unfold DesiredState.next
      rw [hpoll]
      simp only [hcached]
      rfl
    rw [hnext]
    have hplannable : plannable symbols (b.desired allowed) = ∅ := by
      rw [h.fresh (hsince ▸ hzero)]
      rfl
    exact ⟨hempty.symm, {
      fresh := h.fresh
      le := le_rfl
      cached := fun _ hv => (Option.some.inj hv).symm
      uncached := fun hnone => nomatch hnone
      agrees := fun _ => hplannable.symm
      registered := h.registered }⟩

/-- A full answer. -/
theorem Agrees.answered (h : Agrees symbols allowed s b) (sees : symbols.Sees cycle.symbols)
    (hpoll : cycle.poll s.registry.values s.assignmentVersion
      = some (b.nativeAssignments allowed s.assignmentVersion))
    (hinstances : b.instances ⊆ s.registry.values) (hsince : s.assignmentVersion ≠ b.version) :
    Agrees symbols allowed (s.next cycle).1 b := by
  have hanswer : b.nativeAssignments allowed s.assignmentVersion
      = { version := b.version, assignments := (b.desired allowed).map assignmentOf } := by
    unfold Broker.nativeAssignments
    rw [if_neg hsince]
  rw [hanswer] at hpoll
  have hregistry : ∀ e ∈ b.desired allowed, s.registry.get? e.1.instanceId = some e.1 := by
    intro e he
    obtain ⟨i, hi, rfl⟩ := List.mem_map.mp he
    exact h.registered.get? (hinstances (List.mem_filter.mp hi).1)
  have hcached : s.cachedAssignmentVersion ≠ some b.version := fun hc => hsince (h.cached _ hc).symm
  have hrebuilt := rebuild_eq_plannable sees hregistry
  unfold DesiredState.next
  rw [hpoll]
  simp only [if_neg hcached]
  generalize ((b.desired allowed).map assignmentOf).foldl (rebuildAssignment cycle.symbols s.registry) {}
    = r at hrebuilt ⊢
  by_cases hretry : r.retryRequired = true
  · rw [if_pos hretry]
    simp only [assignmentPollCursor, if_pos hretry]
    exact {
      fresh := h.fresh
      le := h.le
      cached := fun _ hnone => nomatch hnone
      uncached := fun _ => .inl (lt_of_le_of_ne h.le hsince)
      agrees := fun hnone => nomatch hnone
      registered := h.registered }
  · rw [if_neg hretry]
    simp only [assignmentPollCursor, if_neg hretry]
    exact {
      fresh := h.fresh
      le := le_rfl
      cached := fun _ hv => (Option.some.inj hv).symm
      uncached := fun hnone => nomatch hnone
      agrees := fun _ => hrebuilt (Bool.eq_false_iff.mpr hretry)
      registered := h.registered }

/-- The broker an answer comes from, and what happened before and after it. -/
theorem Broker.Polls.cases {instances : List DiscoveredInstance} {since : ℕ} {answer : Option Assignments}
    (h : b.Polls allowed instances since answer b') (hagrees : Agrees symbols allowed s b) :
    answer = none ∧ Agrees symbols allowed s b' ∨
      ∃ b₃ : Broker, answer = some (b₃.nativeAssignments allowed since) ∧ b₃.instances ⊆ instances ∧
        Agrees symbols allowed s b₃ ∧ b₃.Bumps allowed b' := by
  cases h with
  | unreported changes => exact .inl ⟨rfl, hagrees.broker changes.toBumps⟩
  | reported before replaces changes =>
    exact .inl ⟨rfl, ((hagrees.broker before.toBumps).broker replaces.toBumps).broker changes.toBumps⟩
  | answered before replaces between changes =>
    refine .inr ⟨_, rfl, ?_, ?_, changes.toBumps⟩
    · exact replaces.instances ▸ between.instances
    · exact ((hagrees.broker before.toBumps).broker replaces.toBumps).broker between.toBumps

/-- One cycle. -/
theorem Agrees.next (h : Agrees symbols allowed s b) (sees : symbols.Sees cycle.symbols)
    (polls : b.Polls allowed s.registry.values s.assignmentVersion
      (cycle.poll s.registry.values s.assignmentVersion) b') :
    Agrees symbols allowed (s.next cycle).1 b' := by
  rcases polls.cases h with ⟨hnone, hagrees⟩ | ⟨b₃, hanswer, hinstances, hagrees, hbumps⟩
  · rw [DesiredState.next_of_none hnone]
    exact hagrees
  · refine Agrees.broker ?_ hbumps
    by_cases hsince : s.assignmentVersion = b₃.version
    · exact (hagrees.unchanged hanswer hsince).2
    · exact hagrees.answered sees hanswer hinstances hsince

theorem DesiredState.reconcile_eq (s : DesiredState) (cycle : Cycle) : ∃ registry, s.reconcile cycle = { s with registry } := by
  unfold DesiredState.reconcile
  cases cycle.discovered with
  | none => exact ⟨s.registry, rfl⟩
  | some instances => exact ⟨_, rfl⟩

/-- Discovery alone. -/
theorem Agrees.reconcile (h : Agrees symbols allowed s b) (cycle : Cycle) :
    Agrees symbols allowed (s.reconcile cycle) b := by
  have hregistered := h.registered.reconcile cycle
  obtain ⟨registry, heq⟩ := s.reconcile_eq cycle
  rw [heq] at hregistered ⊢
  exact { h with registered := hregistered }

variable {config : SafetyConfig} {w : World}

theorem AgreementRun.invariant (run : AgreementRun config symbols allowed w b) :
    Agrees symbols allowed w.state b := by
  induction run with
  | start identity fresh =>
    exact {
      fresh := fresh
      le := Nat.zero_le _
      cached := fun _ hnone => nomatch hnone
      uncached := fun _ => .inr ⟨rfl, rfl⟩
      agrees := fun hnone => nomatch hnone
      registered := JsMap.All.empty }
  | broker _ changes ih => exact ih.broker changes.toBumps
  | @cycle w b b' cycle _ sees polls ih =>
    rw [World.state_reconcile]
    have hversion : (w.state.reconcile cycle).assignmentVersion = w.state.assignmentVersion := by
      obtain ⟨registry, heq⟩ := w.state.reconcile_eq cycle
      rw [heq]
    rw [← hversion] at polls
    exact (ih.reconcile cycle).next sees polls

/-- A plan made for the broker's version is the plan of what the broker assigns, and
an answer that says nothing has changed removes nothing. -/
theorem AgreementRun.agrees (run : AgreementRun config symbols allowed w b) :
    (w.state.cachedAssignmentVersion = some b.version →
      w.state.cachedDesired = plannable symbols (b.desired allowed)) ∧
    ∀ (cycle : Cycle) (b' : Broker) (answer : Assignments),
      b.Polls allowed (w.state.reconcile cycle).registry.values w.state.assignmentVersion
        (cycle.poll (w.state.reconcile cycle).registry.values w.state.assignmentVersion) b' →
      cycle.poll (w.state.reconcile cycle).registry.values w.state.assignmentVersion = some answer →
      answer.version = w.state.assignmentVersion →
      (w.prepare cycle).2 = w.state.cachedDesired := by
  have h := run.invariant
  refine ⟨h.agrees, ?_⟩
  intro cycle b' answer polls hanswer hversion
  obtain ⟨registry, heq⟩ := w.state.reconcile_eq cycle
  have hreconciled := h.reconcile cycle
  rw [World.prepare_desired, DesiredState.next_desired]
  rw [heq] at polls hanswer hreconciled ⊢
  rcases polls.cases hreconciled with ⟨hnone, -⟩ | ⟨b₃, hb₃, -, hagrees, -⟩
  · rw [hanswer] at hnone
    cases hnone
  · have hsame : answer.version = b₃.version := by
      rw [hanswer] at hb₃
      rw [Option.some.inj hb₃]
      unfold Broker.nativeAssignments
      split <;> rfl
    exact (hagrees.unchanged hb₃ (hversion.symm.trans hsame)).1

end

/-! ### A first poll -/

theorem Symbols.Sees.refl (symbols : Symbols) : symbols.Sees symbols :=
  ⟨fun _ => .inl rfl, fun _ _ _ => .inl rfl⟩

/-- A broker that has learned of the process and assigns the counter. -/
def shopBroker : Broker where
  version := 1
  instances := [shopInstance]
  probes := fun _ => [shopCounter]

/-- After its first cycle the agent has the plan of what the broker assigns. -/
theorem countedCycle_agrees :
    ((World.start ⟨1, 1⟩).reconcile oneAttachment (countedCycle 1 0)).state.cachedAssignmentVersion = some 1 ∧
      ((World.start ⟨1, 1⟩).reconcile oneAttachment (countedCycle 1 0)).state.cachedDesired
        = plannable (countedCycle 1 0).symbols (shopBroker.desired fun _ => true) := by
  have hversion : ((World.start ⟨1, 1⟩).reconcile oneAttachment
      (countedCycle 1 0)).state.cachedAssignmentVersion = some shopBroker.version := by decide
  have hstart : AgreementRun oneAttachment (countedCycle 1 0).symbols (fun _ => true) (.start ⟨1, 1⟩)
      { version := 0, instances := [], probes := fun _ => [] } := .start ⟨1, 1⟩ fun _ => rfl
  have hsame : ∀ b : Broker, b.Changes (fun _ => true) b := fun b =>
    { le := le_rfl, lt := fun hne => absurd rfl hne, instances := fun _ hi => hi }
  have hpolls : Broker.Polls (fun _ => true) _ 0 _ _ shopBroker := .answered
    (hsame { version := 0, instances := [], probes := fun _ => [] })
    { le := Nat.zero_le 1, lt := fun _ => Nat.zero_lt_one, instances := rfl : Broker.Replaces _
      ((World.start ⟨1, 1⟩).state.reconcile (countedCycle 1 0)).registry.values _ shopBroker }
    (hsame shopBroker) (hsame shopBroker)
  exact ⟨hversion, (AgreementRun.agrees (hstart.cycle (.refl _) hpolls)).1 hversion⟩

end NativeAgent
