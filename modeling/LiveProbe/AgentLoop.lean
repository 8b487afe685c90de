/-
LiveProbe/AgentLoop.lean

The reconciliation loop of the native agent.

One cycle checks the loader, retries the detaches that failed, discovers the
instances, asks the broker for assignments and plans them, brings the attached
sites in line with what is desired, and then reads events and counters.  The
statuses the agent reports are left out: sending one cannot fail, and nothing
reads them back.

`Cycle` holds what the world outside decides during one cycle.  Maps and sets
of the source have no order of their own, so each loop over one goes over its
entries as the cycle arranges them.
-/
import LiveProbe.JsMap
import LiveProbe.Loader
import Mathlib.Data.List.Infix
import Mathlib.Data.List.Sort

namespace NativeAgent

/-! ### Data -/

structure DiscoveredInstance where
  instanceId : String
  serviceId : String
  buildId : String
  pid : ℕ
  deriving DecidableEq, Repr

structure Assignment where
  instanceId : String
  buildId : String
  probes : List ProbeAssignment
  deriving DecidableEq, Repr

structure Assignments where
  version : ℕ
  assignments : List Assignment
  deriving DecidableEq, Repr

structure SafetyConfig where
  maxAttachments : ℕ
  preflightSeconds : ℕ
  perProbeRawHitsPerSecond : ℕ

/-- The sites that are to be attached, by site id. -/
abbrev Desired := JsMap String (PlannedSite × DiscoveredInstance)

structure ActiveSite where
  site : PlannedSite
  target : DiscoveredInstance
  lastCaptures : ℕ
  failures : ℕ

/-- What the agent knows of the desired state. -/
structure DesiredState where
  registry : JsMap String DiscoveredInstance
  assignmentVersion : ℕ
  cachedAssignmentVersion : Option ℕ
  cachedDesired : Desired

/-- An event, or the delta of a counter, handed to the broker client. -/
structure Handed where
  instanceId : String
  buildId : String
  probeId : String
  probeVersion : ℕ
  count : ℕ
  deriving DecidableEq, Repr

/-- The variables of the loop, the loader, and the number of calls made to it in
the current cycle. -/
structure World where
  state : DesiredState
  active : JsMap String ActiveSite
  terminalSites : List String
  pendingDetaches : List String
  terminalProbes : List String
  logicalCaptures : JsMap String ℕ
  invalidEnvelopeCount : ℕ
  captureSubsystemDisabled : Bool
  loaderIdentity : Option LoaderIdentity
  loaderAvailable : Bool
  handed : List Handed
  loader : Loader
  calls : ℕ

/-- An order in which a map or a set is gone through. -/
structure Arrangement where
  run : ∀ {α : Type}, List α → List α
  perm : ∀ {α : Type} (l : List α), (run l).Perm l

theorem Arrangement.mem_run (arrangement : Arrangement) {α : Type} {l : List α} {a : α} :
    a ∈ arrangement.run l ↔ a ∈ l := (arrangement.perm l).mem_iff

/-- The debug artifact of an instance, and the sites of a probe by an artifact. -/
structure Symbols where
  debugArtifact : DiscoveredInstance → Except String (Option String)
  planSites : DiscoveredInstance → ProbeAssignment → String → Except String (List PlannedSite)

/-- What the world outside decides during one cycle. -/
structure Cycle where
  /-- the loader restarted since the last cycle -/
  restarted : Option LoaderIdentity
  /-- the time to try an unavailable loader again has come -/
  loaderRetryDue : Bool
  call : ℕ → Call
  discovered : Option (List DiscoveredInstance)
  /-- what registering, reporting the instances and polling since a version give -/
  poll : List DiscoveredInstance → ℕ → Option Assignments
  symbols : Symbols
  hostRateExceeded : Bool
  arrange : ℕ → Arrangement

/-! ### Calls -/

namespace World

def call (cycle : Cycle) (request : LoaderRequest) (w : World) : World × Option LoaderResponse :=
  let performed := (cycle.call w.calls).perform request w.loader
  ({ w with loader := performed.1, calls := w.calls + 1 }, performed.2)

def detachSucceeded (cycle : Cycle) (siteId : String) (w : World) : World × Bool :=
  let detach := w.call cycle (.detach siteId)
  (detach.1, detach.2 = some .detached)

/-- The start of a cycle. -/
def begin (cycle : Cycle) (w : World) : World :=
  match cycle.restarted with
  | some identity => { w with loader := { identity, links := [] }, calls := 0 }
  | none => { w with calls := 0 }

/-- `verify_compatibility` reads the identity from the socket file before it calls.
An agent that has the loader never waits to call it again. -/
def verifyLoader (cycle : Cycle) (w : World) : World :=
  if w.loaderAvailable ∨ cycle.loaderRetryDue then
    let info := w.call cycle .getInfo
    if info.2 = some .info then
      if w.loaderIdentity.all (· = w.loader.identity) then
        { info.1 with loaderIdentity := some w.loader.identity, loaderAvailable := true }
      else
        { info.1 with
          active := ∅, pendingDetaches := []
          loaderIdentity := some w.loader.identity, loaderAvailable := true }
    else { info.1 with loaderAvailable := false }
  else w

def retryDetach (cycle : Cycle) (w : World) (siteId : String) : World :=
  let detach := w.detachSucceeded cycle siteId
  if detach.2 then
    { detach.1 with
      pendingDetaches := w.pendingDetaches.filter (· ≠ siteId)
      active := w.active.delete siteId
      terminalSites := if w.active.has siteId then w.terminalSites.insert siteId else w.terminalSites }
  else detach.1

def retryPendingDetaches (cycle : Cycle) (w : World) : World :=
  if w.loaderAvailable then
    ((cycle.arrange w.calls).run w.pendingDetaches).foldl (retryDetach cycle) w
  else w

end World

/-! ### Planning -/

/-- `str::contains`. -/
def contains (error reason : String) : Bool := reason.toList <:+: error.toList

def permanentReasonFromError (error : String) : Option String :=
  ["build-mismatch", "no-debug-info", "no-line-info", "source-file-not-found",
    "source-file-ambiguous", "no-executable-address", "variable-not-found",
    "variable-optimized-out", "unsupported-location-expression", "unsupported-register-piece",
    "unsupported-type"].find? (contains error)

def planningErrorShouldRetry (error : String) : Bool :=
  (permanentReasonFromError error).isNone || contains error "no-debug-info"

def assignmentPollCursor (current candidate : ℕ) (rebuildRetryRequired : Bool) : ℕ :=
  if rebuildRetryRequired then current else candidate

def assignmentLogicalKey (probe : ProbeAssignment) (target : DiscoveredInstance) : String :=
  target.instanceId ++ "\x00" ++ target.buildId ++ "\x00" ++ probe.id ++ "\x00" ++ toString probe.version

def logicalKey (site : PlannedSite) (target : DiscoveredInstance) : String :=
  assignmentLogicalKey site.probe target

def physicalSiteId (target : DiscoveredInstance) (probe : ProbeAssignment) (index : ℕ) : String :=
  probe.id ++ ":" ++ toString probe.version ++ ":" ++ target.instanceId ++ ":" ++ target.buildId ++ ":"
    ++ toString index

/-- `plan_probe`: the sites of the addresses of the line, under the ids of the probe. -/
def planProbe (symbols : Symbols) (target : DiscoveredInstance) (probe : ProbeAssignment)
    (artifact : String) : Except String (List PlannedSite) := do
  let sites ← symbols.planSites target probe artifact
  if sites.isEmpty then
    .error "no-executable-address: no site has a supported capture plan"
  else
    return sites.mapIdx fun index site => { site with probe, siteId := physicalSiteId target probe index }

structure Rebuild where
  rebuilt : Desired := ∅
  retryRequired : Bool := false
  retryLogicals : List String := []

/-- `rebuilt.insert` for each of the sites. -/
def insertSites (target : DiscoveredInstance) (sites : List PlannedSite) (desired : Desired) : Desired :=
  sites.foldl (fun desired site => desired.set site.siteId (site, target)) desired

def rebuildProbe (symbols : Symbols) (target : DiscoveredInstance) (artifact : Option String)
    (acc : Rebuild) (probe : ProbeAssignment) : Rebuild :=
  let planned := match artifact with
    | some path => planProbe symbols target probe path
    | none => .error "no-debug-info"
  match planned with
  | .ok sites => { acc with rebuilt := insertSites target sites acc.rebuilt }
  | .error detail =>
    if planningErrorShouldRetry detail then
      { acc with
        retryRequired := true, retryLogicals := assignmentLogicalKey probe target :: acc.retryLogicals }
    else acc

def rebuildAssignment (symbols : Symbols) (instances : JsMap String DiscoveredInstance) (acc : Rebuild)
    (assignment : Assignment) : Rebuild :=
  match instances.get? assignment.instanceId with
  | none => acc
  | some target =>
    if target.buildId ≠ assignment.buildId then acc
    else
      match symbols.debugArtifact target with
      | .ok artifact => assignment.probes.foldl (rebuildProbe symbols target artifact) acc
      | .error detail =>
        let reason := permanentReasonFromError detail
        if reason = none ∨ reason = some "no-debug-info" then
          { acc with
            retryRequired := true
            retryLogicals := assignment.probes.map (assignmentLogicalKey · target) ++ acc.retryLogicals }
        else acc

/-- The cached sites of the probes to try again are kept unless planned anew. -/
def keepCached (retryLogicals : List String) (rebuilt : Desired) (e : String × PlannedSite × DiscoveredInstance) :
    Desired :=
  if logicalKey e.2.1 e.2.2 ∈ retryLogicals then
    if rebuilt.has e.1 then rebuilt else rebuilt.set e.1 e.2
  else rebuilt

/-- The desired sites of the cycle. -/
def DesiredState.next (cycle : Cycle) (s : DesiredState) : DesiredState × Desired :=
  match cycle.poll s.registry.values s.assignmentVersion with
  | none => (s, s.cachedDesired)
  | some answer =>
    if s.cachedAssignmentVersion = some answer.version then (s, s.cachedDesired)
    else
      let r := answer.assignments.foldl (rebuildAssignment cycle.symbols s.registry) {}
      let cursor := assignmentPollCursor s.assignmentVersion answer.version r.retryRequired
      if r.retryRequired then
        let rebuilt := ((cycle.arrange 0).run s.cachedDesired.entries).foldl (keepCached r.retryLogicals) r.rebuilt
        ({ s with
          assignmentVersion := cursor, cachedAssignmentVersion := none, cachedDesired := rebuilt }, rebuilt)
      else
        ({ s with
          assignmentVersion := cursor, cachedAssignmentVersion := some answer.version
          cachedDesired := r.rebuilt }, r.rebuilt)

/-! ### What is planned -/

section
variable {cycle : Cycle} {symbols : Symbols} {P : String → PlannedSite × DiscoveredInstance → Prop}

theorem insertSites_all {target : DiscoveredInstance} {sites : List PlannedSite} {desired : Desired}
    (hsites : ∀ site ∈ sites, P site.siteId (site, target)) (h : desired.All P) :
    (insertSites target sites desired).All P :=
  List.foldlRecOn sites _ h fun _ hb site hsite => hb.set (hsites site hsite)

theorem rebuildProbe_all {target : DiscoveredInstance} {artifact : Option String} {acc : Rebuild}
    {probe : ProbeAssignment}
    (hplanned : ∀ path sites, planProbe symbols target probe path = .ok sites →
      ∀ site ∈ sites, P site.siteId (site, target))
    (h : acc.rebuilt.All P) : (rebuildProbe symbols target artifact acc probe).rebuilt.All P := by
  unfold rebuildProbe
  cases artifact with
  | none =>
    dsimp only
    split <;> exact h
  | some path =>
    dsimp only
    split
    · rename_i sites hsites
      exact insertSites_all (hplanned path sites hsites) h
    · split <;> exact h

theorem rebuildAssignment_all {instances : JsMap String DiscoveredInstance} {acc : Rebuild}
    {assignment : Assignment}
    (hplanned : ∀ probe ∈ assignment.probes, ∀ target path sites,
      planProbe symbols target probe path = .ok sites → ∀ site ∈ sites, P site.siteId (site, target))
    (h : acc.rebuilt.All P) : (rebuildAssignment symbols instances acc assignment).rebuilt.All P := by
  unfold rebuildAssignment
  split
  · exact h
  · rename_i target _
    split
    · exact h
    · split
      · rename_i artifact _
        exact List.foldlRecOn (motive := fun acc : Rebuild => acc.rebuilt.All P) assignment.probes _ h
          fun acc hacc probe hprobe => rebuildProbe_all (hplanned probe hprobe target) hacc
      · dsimp only
        split <;> exact h

theorem keepCached_all (retryLogicals : List String) {rebuilt : Desired}
    {e : String × PlannedSite × DiscoveredInstance} (he : P e.1 e.2) (h : rebuilt.All P) :
    (keepCached retryLogicals rebuilt e).All P := by
  unfold keepCached
  split
  · split
    · exact h
    · exact h.set he
  · exact h

/-- What holds of every site planned for the answer, and of the cached ones, holds
of the desired ones. -/
theorem DesiredState.next_all {s : DesiredState}
    (hplanned : ∀ answer, cycle.poll s.registry.values s.assignmentVersion = some answer →
      ∀ assignment ∈ answer.assignments, ∀ probe ∈ assignment.probes, ∀ target path sites,
        planProbe cycle.symbols target probe path = .ok sites → ∀ site ∈ sites, P site.siteId (site, target))
    (h : s.cachedDesired.All P) :
    (s.next cycle).1.cachedDesired.All P ∧ (s.next cycle).2.All P := by
  unfold next
  split
  · exact ⟨h, h⟩
  · rename_i answer hanswer
    split
    · exact ⟨h, h⟩
    · have hrebuilt : (answer.assignments.foldl (rebuildAssignment cycle.symbols s.registry) {}).rebuilt.All P :=
        List.foldlRecOn (motive := fun acc : Rebuild => acc.rebuilt.All P) answer.assignments _ JsMap.All.empty
          fun acc hacc assignment hassignment =>
            rebuildAssignment_all (hplanned answer hanswer assignment hassignment) hacc
      dsimp only
      split
      · have hkept := List.foldlRecOn ((cycle.arrange 0).run s.cachedDesired.entries) _ hrebuilt
          fun rebuilt hr e he =>
            keepCached_all
              (answer.assignments.foldl (rebuildAssignment cycle.symbols s.registry) {}).retryLogicals
              (h e.1 e.2 (JsMap.get?_eq_some_iff.mpr ((cycle.arrange 0).mem_run.mp he))) hr
        exact ⟨hkept, hkept⟩
      · exact ⟨hrebuilt, hrebuilt⟩

end

/-- The known instances are kept when discovery fails. -/
def DesiredState.reconcile (cycle : Cycle) (s : DesiredState) : DesiredState :=
  match cycle.discovered with
  | some instances => { s with registry := JsMap.ofEntries (instances.map fun i => (i.instanceId, i)) }
  | none => s

end NativeAgent
