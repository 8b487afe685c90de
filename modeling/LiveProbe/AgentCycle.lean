/-
LiveProbe/AgentCycle.lean

One cycle of the native agent, phase by phase.

`prepare` ends with the sites that are to be attached and without the stale
ones.  Attaching goes through the desired sites and stops early only when the
agent is told to shut down.  Then up to 64 batches of events and the counters
of every active site are read, and what has to go is detached.
-/
import LiveProbe.AgentLoop

namespace NativeAgent

namespace World

/-! ### Before attaching -/

def detachStaleSite (cycle : Cycle) (w : World) (siteId : String) : World :=
  if w.loaderAvailable then
    let detach := w.detachSucceeded cycle siteId
    if detach.2 then { detach.1 with active := w.active.delete siteId } else detach.1
  else w

def detachStale (cycle : Cycle) (desired : Desired) (w : World) : World :=
  let stale := w.active.keys.filter (¬ desired.has ·)
  ((cycle.arrange w.calls).run stale).foldl (detachStaleSite cycle) w

/-- Discovery, the assignments and the plan. -/
def plan (cycle : Cycle) (w : World) : World × Desired :=
  let next := (w.state.reconcile cycle).next cycle
  ({ w with state := next.1 }, next.2)

def prepare (cycle : Cycle) (w : World) : World × Desired :=
  let planned := (((w.begin cycle).verifyLoader cycle).retryPendingDetaches cycle).plan cycle
  (planned.1.detachStale cycle planned.2, planned.2)

end World

def Desired.logicals (desired : Desired) : List String :=
  desired.values.map fun e => logicalKey e.1 e.2

/-- What is kept of sites and probes that are no longer desired. -/
def World.retainDesired (desired : Desired) (w : World) : World :=
  { w with
    terminalSites := w.terminalSites.filter (desired.has ·)
    terminalProbes := w.terminalProbes.filter (· ∈ desired.logicals)
    logicalCaptures := w.logicalCaptures.filter fun logical _ => logical ∈ desired.logicals }

/-! ### Attaching -/

def saturatingMul (a b : ℕ) : ℕ := min (a * b) (2 ^ 64 - 1)

inductive PreflightDecision where
  | approve
  | sample (every : ℕ)
  | reject
  deriving DecidableEq, Repr

def decidePreflight (rawHits elapsedMillis limitPerSecond : ℕ) : PreflightDecision :=
  let rate := saturatingMul rawHits 1000 / max elapsedMillis 1
  if saturatingMul limitPerSecond 4 < rate then .reject
  else if limitPerSecond < rate then
    .sample ((rate + (max limitPerSecond 1 - 1)) / max limitPerSecond 1)
  else .approve

/-- How the preflight of a site ends: it may be attached with a sampling rate,
it is left for a later cycle, or the agent shuts down. -/
inductive Preflight where
  | approved (sampleEvery : ℕ)
  | rejected
  | shutdown
  deriving DecidableEq, Repr

def PreflightDecision.preflight : PreflightDecision → Preflight
  | .reject => .rejected
  | .sample every => .approved (max (min every (2 ^ 32 - 1)) 1)
  | .approve => .approved 1

def PlannedSite.preflightId (site : PlannedSite) : String := site.siteId ++ ":preflight"

def PlannedSite.preflightRequest (site : PlannedSite) (target : DiscoveredInstance) : AttachRequest :=
  { site.attachRequest target.pid true 1 with cookie := site.cookie ^^^ (2 ^ 64 - 1) }

namespace World

/-- The hits of an attached preflight, and its end. -/
def finishPreflight (config : SafetyConfig) (cycle : Cycle) (site : PlannedSite)
    (target : DiscoveredInstance) (w : World) : World × Preflight :=
  let read := w.call cycle (.readCounters (site.preflightRequest target).cookie)
  match read.2 with
  | none =>
    ({ read.1 with pendingDetaches := read.1.pendingDetaches.insert site.preflightId }, .rejected)
  | some response =>
    let rawHits := match response with
      | .counters counters => counters.rawHits
      | _ => 0
    let detach := read.1.detachSucceeded cycle site.preflightId
    if detach.2 then
      (detach.1, (decidePreflight rawHits (saturatingMul config.preflightSeconds 1000)
        config.perProbeRawHitsPerSecond).preflight)
    else
      ({ detach.1 with pendingDetaches := detach.1.pendingDetaches.insert site.preflightId }, .rejected)

def preflight (config : SafetyConfig) (cycle : Cycle) (site : PlannedSite) (target : DiscoveredInstance)
    (w : World) : World × Preflight :=
  if site.probe.kind = "counter" then (w, .approved 1)
  else
    let attach := w.call cycle (.attach site.preflightId (site.preflightRequest target))
    match attach.2 with
    | none => ({ attach.1 with loaderAvailable := false }, .rejected)
    | some .attached =>
      if (cycle.call w.calls).shutdown then (attach.1, .shutdown)
      else attach.1.finishPreflight config cycle site target
    | some _ => (attach.1, .rejected)

def attachPlanned (cycle : Cycle) (siteId : String) (site : PlannedSite) (target : DiscoveredInstance)
    (sampleEvery : ℕ) (w : World) : World :=
  let request := site.attachRequest target.pid false sampleEvery
  let attach := w.call cycle (.attach site.siteId request)
  match attach.2 with
  | some .attached =>
    { attach.1 with
      active := w.active.set siteId
        { site := site.attached request, target, lastCaptures := 0, failures := 0 } }
  | none => { attach.1 with loaderAvailable := false }
  | some _ => attach.1

/-- The sites the loop goes past. -/
def skips (config : SafetyConfig) (w : World) (e : String × PlannedSite × DiscoveredInstance) : Bool :=
  w.active.has e.1 || e.1 ∈ w.terminalSites || logicalKey e.2.1 e.2.2 ∈ w.terminalProbes
    || !w.loaderAvailable || w.captureSubsystemDisabled || config.maxAttachments ≤ w.active.size

/-- One turn of the loop; the second part says that the cycle ends here. -/
def attachSite (config : SafetyConfig) (cycle : Cycle) (w : World)
    (e : String × PlannedSite × DiscoveredInstance) : World × Bool :=
  if w.skips config e then (w, false)
  else
    let flight := w.preflight config cycle e.2.1 e.2.2
    match flight.2 with
    | .rejected => (flight.1, false)
    | .shutdown => (flight.1, true)
    | .approved sampleEvery => (flight.1.attachPlanned cycle e.1 e.2.1 e.2.2 sampleEvery, false)

def attachSites (config : SafetyConfig) (cycle : Cycle) :
    List (String × PlannedSite × DiscoveredInstance) → World → World × Bool
  | [], w => (w, false)
  | e :: es, w =>
    let turn := w.attachSite config cycle e
    if turn.2 then (turn.1, true) else attachSites config cycle es turn.1

end World

/-! ### Events and counters -/

/-- What a cycle collects while it reads events and counters. -/
structure Observed where
  world : World
  reachedLogicalLimits : List String := []
  detach : List String := []
  safetyTerminalLogicals : List String := []

namespace Observed

/-- A record that is too short to hold a cookie. -/
def shortRecord (cycle : Cycle) (o : Observed) : Observed :=
  if o.world.captureSubsystemDisabled then o
  else
    let count := min (o.world.invalidEnvelopeCount + 1) (2 ^ 32 - 1)
    if 5 ≤ count then
      { o with
        world := { o.world with invalidEnvelopeCount := count, captureSubsystemDisabled := true }
        detach := o.detach ++ (cycle.arrange o.world.calls).run o.world.active.keys }
    else { o with world := { o.world with invalidEnvelopeCount := count } }

def accepted (o : Observed) (logical : String) : ℕ := (o.world.logicalCaptures.get? logical).getD 0

/-- `logical_captures` of a logical probe. -/
def setAccepted (logical : String) (count : ℕ) (o : Observed) : Observed :=
  { o with world := { o.world with logicalCaptures := o.world.logicalCaptures.set logical count } }

def reach (logical : String) (o : Observed) : Observed :=
  { o with reachedLogicalLimits := o.reachedLogicalLimits.insert logical }

/-- `send_events` of an event, or of a counter's delta. -/
def send (active : ActiveSite) (count : ℕ) (o : Observed) : Observed :=
  { o with
    world := { o.world with
      handed := o.world.handed ++ [{
        instanceId := active.target.instanceId, buildId := active.target.buildId
        probeId := active.site.probe.id, probeVersion := active.site.probe.version, count }] } }

def setActive (siteId : String) (active : ActiveSite) (o : Observed) : Observed :=
  { o with world := { o.world with active := o.world.active.set siteId active } }

/-- A record of an active site. -/
def siteRecord (siteId : String) (active : ActiveSite) (outcome : IsolatedDecode) (o : Observed) : Observed :=
  let logical := logicalKey active.site active.target
  let accepted := o.accepted logical
  let o := o.setAccepted logical accepted
  if active.site.probe.hitLimit ≤ accepted then o.reach logical
  else
    match outcome with
    | .filtered => o
    | .event withinBudget =>
      if withinBudget then
        let o := (o.send active 1).setAccepted logical (accepted + 1)
        if active.site.probe.hitLimit ≤ accepted + 1 then o.reach logical else o
      else o
    | .failed =>
      let failures := min (active.failures + 1) (2 ^ 32 - 1)
      let o := o.setActive siteId { active with failures }
      if 5 ≤ failures then { o with detach := o.detach ++ [siteId] } else o

def record (cycle : Cycle) (o : Observed) (r : Record) : Observed :=
  if r.size < 32 then o.shortRecord cycle
  else
    match ((cycle.arrange o.world.calls).run o.world.active.entries).find? (·.2.site.cookie = r.cookie) with
    | none => o
    | some (siteId, active) => o.siteRecord siteId active r.outcome

def pollBatches (cycle : Cycle) : ℕ → Observed → Observed
  | 0, o => o
  | batches + 1, o =>
    let polled := o.world.call cycle .pollEvents
    let o := { o with world := polled.1 }
    match polled.2 with
    | some (.events []) => o
    | some (.events records) => pollBatches cycle batches (records.foldl (record cycle) o)
    | _ => o

def pollEvents (cycle : Cycle) (o : Observed) : Observed :=
  pollBatches cycle (if o.world.loaderAvailable then 64 else 0) o

/-- The delta of a counter, up to what the hit limit leaves. -/
def countCaptures (active : ActiveSite) (captures : ℕ) (o : Observed) : Observed :=
  if active.site.probe.kind = "counter" ∧ active.lastCaptures < captures then
    let logical := logicalKey active.site active.target
    let accepted := o.accepted logical
    let delta := min (captures - active.lastCaptures) (active.site.probe.hitLimit - accepted)
    let o := if 0 < delta then o.send active delta else o
    let o := o.setAccepted logical (accepted + delta)
    if active.site.probe.hitLimit ≤ accepted + delta then o.reach logical else o
  else o

def counter (cycle : Cycle) (o : Observed) (siteId : String) : Observed :=
  match o.world.active.get? siteId with
  | none => o
  | some active =>
    let read := o.world.call cycle (.readCounters active.site.cookie)
    let o' := { o with world := read.1 }
    match read.2 with
    | some (.counters counters) =>
      let o' := (o'.countCaptures active counters.captures).setActive siteId
        { active with lastCaptures := counters.captures }
      match (cycle.call o.world.calls).safety with
      | none => o'
      | some _ =>
        { o' with
          safetyTerminalLogicals := o'.safetyTerminalLogicals.insert (logicalKey active.site active.target)
          detach := o'.detach ++ [siteId] }
    | _ => o'

def readCounters (cycle : Cycle) (o : Observed) : Observed :=
  if o.world.loaderAvailable then
    ((cycle.arrange o.world.calls).run o.world.active.keys).foldl (counter cycle) o
  else o

/-! ### Detaching -/

/-- All active sites of a logical probe are to be detached, for good. -/
def terminate (o : Observed) (logical : String) : Observed :=
  { o with
    detach := o.detach ++ (o.world.active.filter fun _ a => logicalKey a.site a.target = logical).keys
    world := { o.world with terminalProbes := o.world.terminalProbes.insert logical } }

def terminateUnsafe (cycle : Cycle) (o : Observed) : Observed :=
  ((cycle.arrange o.world.calls).run o.safetyTerminalLogicals).foldl terminate o

/-- The rate is only known of sites whose counters were read. -/
def detachHost (cycle : Cycle) (o : Observed) : Observed :=
  if o.world.loaderAvailable ∧ cycle.hostRateExceeded then
    { o with detach := o.detach ++ o.world.active.keys.filter (· ∉ o.detach) }
  else o

def terminateReached (cycle : Cycle) (o : Observed) : Observed :=
  ((cycle.arrange o.world.calls).run o.reachedLogicalLimits).foldl
    (fun o logical => if logical ∈ o.world.terminalProbes then o else o.terminate logical) o

end Observed

namespace World

def safetyDetach (cycle : Cycle) (w : World) (siteId : String) : World :=
  let detach := w.detachSucceeded cycle siteId
  if detach.2 then
    { detach.1 with
      active := w.active.delete siteId
      terminalSites := w.terminalSites.insert siteId }
  else if w.active.has siteId then
    { detach.1 with pendingDetaches := w.pendingDetaches.insert siteId }
  else detach.1

def observe (cycle : Cycle) (w : World) : World :=
  let o := (({ world := w : Observed }.pollEvents cycle).readCounters cycle).terminateUnsafe cycle
  let o := (o.detachHost cycle).terminateReached cycle
  (o.detach.insertionSort (· ≤ ·)).dedup.foldl (safetyDetach cycle) o.world

/-- One cycle of the loop. -/
def reconcile (config : SafetyConfig) (cycle : Cycle) (w : World) : World :=
  let prepared := w.prepare cycle
  let retained := prepared.1.retainDesired prepared.2
  let attached := retained.attachSites config cycle
    ((cycle.arrange retained.calls).run prepared.2.entries)
  if attached.2 then attached.1 else attached.1.observe cycle

/-- The agent when its loop begins, paired with a loader that holds no site. -/
def start (identity : LoaderIdentity) : World where
  state := { registry := ∅, assignmentVersion := 0, cachedAssignmentVersion := none, cachedDesired := ∅ }
  active := ∅
  terminalSites := []
  pendingDetaches := []
  terminalProbes := []
  logicalCaptures := ∅
  invalidEnvelopeCount := 0
  captureSubsystemDisabled := false
  loaderIdentity := none
  loaderAvailable := false
  handed := []
  loader := { identity, links := [] }
  calls := 0

end World

/-- The states at the ends of the cycles of a run. -/
inductive AgentRun (config : SafetyConfig) : World → Prop
  | start (identity : LoaderIdentity) : AgentRun config (.start identity)
  | cycle {w : World} (run : AgentRun config w) (cycle : Cycle) : AgentRun config (w.reconcile config cycle)

/-! ### What the phases leave alone

Only planning changes the desired state, and only reading events and counters
counts anything. -/

section
variable {cycle : Cycle} {w w' : World}

namespace World

/-- The desired state, and what was counted and handed on. -/
def books (w : World) : DesiredState × JsMap String ℕ × List Handed :=
  (w.state, w.logicalCaptures, w.handed)

theorem books_begin : (w.begin cycle).books = w.books := by
  unfold begin
  cases cycle.restarted <;> rfl

theorem books_verifyLoader : (w.verifyLoader cycle).books = w.books := by
  unfold verifyLoader
  split
  · dsimp only
    split
    · split <;> rfl
    · rfl
  · rfl

theorem books_retryPendingDetaches : (w.retryPendingDetaches cycle).books = w.books := by
  unfold retryPendingDetaches
  split
  · refine List.foldlRecOn (motive := fun b : World => b.books = w.books) _ _ rfl fun b hb siteId _ => ?_
    unfold retryDetach
    dsimp only
    split <;> exact hb
  · rfl

theorem books_detachStale (desired : Desired) : (w.detachStale cycle desired).books = w.books := by
  refine List.foldlRecOn (motive := fun b : World => b.books = w.books) _ _ rfl fun b hb siteId _ => ?_
  unfold detachStaleSite
  split
  · dsimp only
    split <;> exact hb
  · exact hb

theorem books_preflight {config : SafetyConfig} {site : PlannedSite} {target : DiscoveredInstance} :
    (w.preflight config cycle site target).1.books = w.books := by
  unfold preflight
  split
  · rfl
  · dsimp only
    split
    · rfl
    · split
      · rfl
      · unfold finishPreflight
        dsimp only
        split
        · rfl
        · split <;> rfl
    · rfl

theorem books_attachSite {config : SafetyConfig} {e : String × PlannedSite × DiscoveredInstance} :
    (w.attachSite config cycle e).1.books = w.books := by
  unfold attachSite
  split
  · rfl
  · dsimp only
    split
    · exact books_preflight
    · exact books_preflight
    · unfold attachPlanned
      dsimp only
      split <;> exact books_preflight

theorem books_attachSites (config : SafetyConfig) (cycle : Cycle)
    (es : List (String × PlannedSite × DiscoveredInstance)) (w : World) :
    (attachSites config cycle es w).1.books = w.books := by
  induction es generalizing w with
  | nil => rfl
  | cons e es ih =>
    unfold attachSites
    dsimp only
    split
    · exact books_attachSite
    · exact (ih _).trans books_attachSite

theorem books_safetyDetach (siteId : String) : (w.safetyDetach cycle siteId).books = w.books := by
  unfold safetyDetach
  dsimp only
  split
  · rfl
  · split <;> rfl

end World

/-- Reading lets go of no site and leaves the desired state alone. -/
structure Quiet (w w' : World) : Prop where
  state : w'.state = w.state
  loader : w'.loader = w.loader
  calls : w'.calls = w.calls
  identity : w'.loaderIdentity = w.loaderIdentity
  available : w'.loaderAvailable = w.loaderAvailable
  pending : w'.pendingDetaches = w.pendingDetaches
  keys : ∀ site ∈ w.active.keys, site ∈ w'.active.keys

theorem Quiet.refl (w : World) : Quiet w w := ⟨rfl, rfl, rfl, rfl, rfl, rfl, fun _ h => h⟩

theorem Quiet.trans {w'' : World} (h : Quiet w w') (h' : Quiet w' w'') : Quiet w w'' where
  state := h'.state.trans h.state
  loader := h'.loader.trans h.loader
  calls := h'.calls.trans h.calls
  identity := h'.identity.trans h.identity
  available := h'.available.trans h.available
  pending := h'.pending.trans h.pending
  keys := fun site hsite => h'.keys site (h.keys site hsite)

namespace Observed

variable {o : Observed}

theorem quiet_setAccepted (logical : String) (count : ℕ) : Quiet o.world (o.setAccepted logical count).world :=
  ⟨rfl, rfl, rfl, rfl, rfl, rfl, fun _ h => h⟩

theorem quiet_send (active : ActiveSite) (count : ℕ) : Quiet o.world (o.send active count).world :=
  ⟨rfl, rfl, rfl, rfl, rfl, rfl, fun _ h => h⟩

theorem quiet_setActive (siteId : String) (active : ActiveSite) :
    Quiet o.world (o.setActive siteId active).world :=
  ⟨rfl, rfl, rfl, rfl, rfl, rfl, fun _ h => JsMap.mem_keys_set.mpr (.inr h)⟩

theorem quiet_shortRecord : Quiet o.world (o.shortRecord cycle).world := by
  unfold shortRecord
  split
  · exact .refl _
  · dsimp only
    split <;> exact ⟨rfl, rfl, rfl, rfl, rfl, rfl, fun _ h => h⟩

theorem quiet_siteRecord {siteId : String} {active : ActiveSite} {outcome : IsolatedDecode} :
    Quiet o.world (o.siteRecord siteId active outcome).world := by
  have hentry := quiet_setAccepted (o := o) (logicalKey active.site active.target)
    (o.accepted (logicalKey active.site active.target))
  unfold siteRecord
  dsimp only
  split
  · exact hentry
  · cases outcome with
    | filtered => exact hentry
    | event withinBudget =>
      dsimp only
      split
      · have hsent := (hentry.trans (quiet_send active 1)).trans (quiet_setAccepted
          (logicalKey active.site active.target) (o.accepted (logicalKey active.site active.target) + 1))
        split <;> exact hsent
      · exact hentry
    | failed =>
      have hset := hentry.trans (quiet_setActive siteId
        { active with failures := min (active.failures + 1) (2 ^ 32 - 1) })
      dsimp only
      split <;> exact hset

theorem quiet_record {r : Record} : Quiet o.world (o.record cycle r).world := by
  unfold record
  split
  · exact quiet_shortRecord
  · split
    · exact .refl _
    · exact quiet_siteRecord

theorem quiet_countCaptures (active : ActiveSite) (captures : ℕ) :
    Quiet o.world (o.countCaptures active captures).world := by
  have hsent : ∀ delta count, Quiet o.world
      ((o.send active delta).setAccepted (logicalKey active.site active.target) count).world :=
    fun delta _ => (quiet_send active delta).trans (quiet_setAccepted _ _)
  unfold countCaptures
  split
  · dsimp only
    split
    · split
      · exact hsent _ _
      · exact quiet_setAccepted _ _
    · split
      · exact hsent _ _
      · exact quiet_setAccepted _ _
  · exact .refl _

end Observed

namespace World

theorem state_pollBatches {batches : ℕ} {o : Observed} :
    (o.pollBatches cycle batches).world.state = o.world.state := by
  induction batches generalizing o with
  | zero => rfl
  | succ batches ih =>
    unfold Observed.pollBatches
    dsimp only
    split
    · rfl
    · rename_i records _ _
      rw [ih]
      exact List.foldlRecOn (motive := fun o' : Observed => o'.world.state = o.world.state) records _ rfl
        fun o' ho' r _ => Observed.quiet_record.state.trans ho'
    · rfl

theorem state_counter {o : Observed} {siteId : String} :
    (o.counter cycle siteId).world.state = o.world.state := by
  unfold Observed.counter
  split
  · rfl
  · dsimp only
    split
    · split <;> exact (Observed.quiet_countCaptures _ _).state
    · rfl

theorem state_observe : (w.observe cycle).state = w.state := by
  have hcounted : ∀ o : Observed, (o.readCounters cycle).world.state = o.world.state := by
    intro o
    unfold Observed.readCounters
    split
    · exact List.foldlRecOn (motive := fun o' : Observed => o'.world.state = o.world.state) _ _ rfl
        fun o' ho' siteId _ => state_counter.trans ho'
    · rfl
  have hunsafe : ∀ o : Observed, (o.terminateUnsafe cycle).world.state = o.world.state := by
    intro o
    exact List.foldlRecOn (motive := fun o' : Observed => o'.world.state = o.world.state) _ _ rfl
      fun o' ho' logical _ => ho'
  have hhost : ∀ o : Observed, (o.detachHost cycle).world.state = o.world.state := by
    intro o
    unfold Observed.detachHost
    split <;> rfl
  have hreached : ∀ o : Observed, (o.terminateReached cycle).world.state = o.world.state := by
    intro o
    refine List.foldlRecOn (motive := fun o' : Observed => o'.world.state = o.world.state) _ _ rfl
      fun o' ho' logical _ => ?_
    split <;> exact ho'
  unfold observe
  refine List.foldlRecOn (motive := fun b : World => b.state = w.state) _ _ ?_ fun b hb siteId _ =>
    (congrArg Prod.fst (books_safetyDetach siteId)).trans hb
  rw [hreached, hhost, hunsafe, hcounted]
  exact state_pollBatches

theorem books_prepare : (w.prepare cycle).1.books =
    (((w.state.reconcile cycle).next cycle).1, w.logicalCaptures, w.handed) := by
  have hbefore : (((w.begin cycle).verifyLoader cycle).retryPendingDetaches cycle).books = w.books := by
    rw [books_retryPendingDetaches, books_verifyLoader, books_begin]
  have hstate := congrArg Prod.fst hbefore
  have hrest := congrArg Prod.snd hbefore
  unfold prepare
  rw [books_detachStale]
  unfold plan
  show (_, (((w.begin cycle).verifyLoader cycle).retryPendingDetaches cycle).books.2) = _
  rw [hrest]
  show (((((((w.begin cycle).verifyLoader cycle).retryPendingDetaches cycle).books.1).reconcile cycle).next
    cycle).1, _) = _
  rw [hstate]
  rfl

/-- The desired sites of a cycle. -/
theorem prepare_desired : (w.prepare cycle).2 = ((w.state.reconcile cycle).next cycle).2 := by
  have hbefore : (((w.begin cycle).verifyLoader cycle).retryPendingDetaches cycle).books = w.books := by
    rw [books_retryPendingDetaches, books_verifyLoader, books_begin]
  show (((((((w.begin cycle).verifyLoader cycle).retryPendingDetaches cycle).books.1).reconcile cycle).next
    cycle).2) = _
  rw [hbefore]
  rfl

/-- A cycle leaves the desired state as it was planned. -/
theorem state_reconcile {config : SafetyConfig} :
    (w.reconcile config cycle).state = ((w.state.reconcile cycle).next cycle).1 := by
  have hprepared : ((w.prepare cycle).1.retainDesired (w.prepare cycle).2).state
      = ((w.state.reconcile cycle).next cycle).1 := congrArg Prod.fst books_prepare
  unfold reconcile
  dsimp only
  split
  · exact (congrArg Prod.fst (books_attachSites _ _ _ _)).trans hprepared
  · rw [state_observe]
    exact (congrArg Prod.fst (books_attachSites _ _ _ _)).trans hprepared

end World

end

end NativeAgent
