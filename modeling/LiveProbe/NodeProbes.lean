/-
LiveProbe/NodeProbes.lean

The probes of the Node agent at work: `handlePaused`, `reconcile`, `suspendAll`,
`rearm` and `stop` of `probe-manager.ts`, over the registry of `NodeArming`.

A pause is a chain of callbacks: the capture, a resume, another one when it
fails, and `setImmediate`.  The calls of `reconcile` and `#ensureArmed` are
suspended at their awaits.  A state holds how far each of them has come, and
one event runs one stretch of code; the events may come in any order.  What
follows a call of the inspector is a stretch of its own, because the inspector
may call back before it returns.

An installation is an object, known by its index.  `#ensureArmed` may be called
for any probe at any time, so there are more runs here than in the agent.
-/
import LiveProbe.Events
import LiveProbe.NodeArming
import LiveProbe.PauseCapture

open JsString NodeAgent

namespace PauseCapture

/-! ### What the manager is given -/

/-- What is read of the definition of a probe once it is hit. -/
structure ProbeDefinition where
  condition : Option Condition := none
  conditionExpression : Option CompiledExpression := none
  watchPaths : List JsString := []
  watchExpressions : List CompiledExpression := []
  metricPath : Option JsString := none
  metricExpression : Option CompiledExpression := none
  template : Option JsString := none
  templateSegments : List TemplateSegment := []
  includeStackLocals : Bool := false
  stackFrameLimit : Option ℕ := none

/-- The bounds of the agent. -/
structure ManagerConfig extends SerializerLimits where
  maxStackFrames : ℕ

/-- `DEFAULT_SERIALIZER_CONFIG` -/
def defaultManagerConfig : ManagerConfig where
  redactKeys := defaultRedactKeys
  redactValues := []
  maxDepth := 3
  maxArray := 3
  maxProps := 50
  maxString := 1024
  maxStackFrames := 8

end PauseCapture

namespace NodeProbes

/-! ### Probes -/

/-- What the manager reads of a probe. -/
structure ProbeDefinition extends toPlaced : NodeArming.ProbeDefinition, toCapture : PauseCapture.ProbeDefinition where
  type : ProbeType
  hitLimit : ℕ
  runtimeLocation : Option JsString := none
  runtimeLine : Option ℕ := none
  runtimeColumn : Option ℕ := none

/-- A counter that counts every pass: it needs no capture. -/
def ProbeDefinition.plainCounter (probe : ProbeDefinition) : Bool :=
  probe.type = .counter && probe.condition.isNone && probe.conditionExpression.isNone

structure InstalledProbe where
  definition : ProbeDefinition
  breakpointId : JsString
  active : Bool := true
  hits : ℕ := 0
  pending : ℕ := 0

/-- What `#processHit` comes to before it counts; a hit is an event, a line, a count or a sample. -/
inductive Verdict
  | skipped
  | error (detail : JsString)
  | hit
  deriving DecidableEq

section

open PauseCapture (ManagerConfig RawCapture heap)

variable (lower : JsString → JsString) (config : ManagerConfig)

/-- The `switch` of `matchesCondition`. -/
def compares (op : ConditionOp) (actual expected : Captured) : Bool :=
  match op with
  | .eq => NodeCapture.same actual expected
  | .ne => !NodeCapture.same actual expected
  | op =>
    match actual, expected with
    | .number a, .number b =>
      if op = .gt then b.value < a.value
      else if op = .gte then b.value ≤ a.value
      else if op = .lt then a.value < b.value
      else a.value ≤ b.value
    | _, _ => false

def matchesCondition (raw : RawCapture) (condition : Option Condition) : Bool :=
  match condition with
  | none => true
  | some condition =>
    let resolved := NodeCapture.resolveDotPath (heap raw.cells) (.container raw.root) condition.path
    let actual := (resolved.value.map (heap raw.cells).captured).getD .undefined
    if !resolved.found || !NodeCapture.isScalar actual || !NodeCapture.isScalar (NodeCapture.ofScalar condition.value)
    then false
    else compares condition.op actual (NodeCapture.ofScalar condition.value)

def evaluate (raw : RawCapture) (expression : CompiledExpression) : Except String Captured :=
  NodeCapture.evaluateExpression (heap raw.cells) expression (.container raw.root)
    (NodeCapture.expressionPolicy lower config.toSerializerConfig)

/-- The branch of `#processHit` for a metric. -/
def metricVerdict (probe : ProbeDefinition) (raw : RawCapture) : Verdict :=
  match probe.metricExpression with
  | none =>
    let path := probe.metricPath.getD []
    let resolved := NodeCapture.resolveDotPath (heap raw.cells) (.container raw.root) path
    if resolved.truncated then .error (js "capture-truncated: " ++ path)
    else
      match resolved.found, resolved.value.map (heap raw.cells).captured with
      | true, some (.number _) => .hit
      | _, _ => .error (js "invalid-metric: " ++ path)
  | some expression =>
    match evaluate lower config raw expression with
    | .ok (.number _) => .hit
    | _ => .error (js "invalid-metric: " ++ expression.source)

/-- The condition that is an expression comes to `true`. -/
def fulfills (raw : RawCapture) (expression : CompiledExpression) : Bool :=
  match evaluate lower config raw expression with
  | .ok (.boolean b) => b
  | _ => false

/-- `#processHit` as far as the counting of the hit. -/
def verdict (probe : ProbeDefinition) (raw : RawCapture) : Verdict :=
  if !matchesCondition raw probe.condition then .skipped
  else if !probe.conditionExpression.all (fulfills lower config raw) then .skipped
  else if probe.type = .metric then metricVerdict lower config probe raw
  else .hit

/-- The capture of a pause that needs none. -/
def emptyCapture : RawCapture := ⟨[{ content := .record ∅, stands := [], depth := 0 }], 0, [some 0], [], []⟩

end

/-! ### The state -/

/-- The `onResumed` of a resume: nothing, or the capture is processed. -/
inductive OnResumed
  | nothing
  | process (captureError : Option JsString) (capture : PauseCapture.RawCapture)

/-- How far a pause has come. -/
inductive Stage
  | capturing
  /-- the first resume is sent -/
  | resuming (onResumed : OnResumed)
  /-- it has failed, and the second is sent -/
  | retrying (firstError : JsString) (onResumed : OnResumed)
  /-- the process goes on, and `setImmediate` has the capture -/
  | immediate (captureError : Option JsString) (capture : PauseCapture.RawCapture)
  | settled

/-- A pause and its candidates; `counted` are those still to be compared with their hit limit. -/
structure Pause where
  candidates : List ℕ
  captureEpoch : ℕ
  stage : Stage
  counted : List ℕ

/-- How far a call of `#ensureArmed` has come. -/
inductive ArmStage
  | acquiring
  /-- the probe is gone, and its breakpoint is being released -/
  | releasing
  | finished
  deriving DecidableEq

/-- A call of `#ensureArmed`, and its call of `#acquireBreakpoint`. -/
structure Arm where
  probe : ProbeDefinition
  call : ℕ
  stage : ArmStage

/-- A call of `reconcile`, with what is left of its loop over the installed probes. -/
structure Reconciling where
  probes : List ProbeDefinition
  installed : List (JsString × ℕ)
  finished : Bool := false

/-- What the manager does that can be seen from outside. -/
inductive Seen
  | resume (pause : ℕ)
  | answer (pause : ℕ) (ok : Bool)
  | disconnect
  /-- a hit of an installation that was captured in a pause -/
  | hit (installation pause : ℕ)
  /-- a hit that was counted over the budget -/
  | counted (installation pause : ℕ)
  | status (probeId : JsString) (status : ProbeStatusName) (detail : Option JsString)
  deriving DecidableEq

structure State where
  registry : NodeArming.State := {}
  /-- every installation there ever was -/
  installations : List InstalledProbe := []
  desired : JsMap JsString ProbeDefinition := ∅
  installed : JsMap JsString ℕ := ∅
  exhausted : JsMap JsString JsString := ∅
  installing : List JsString := []
  suspended : Bool := false
  stopped : Bool := false
  inspectorFailed : Bool := false
  epoch : ℕ := 0
  droppedHits : ℕ := 0
  pauses : List Pause := []
  arms : List Arm := []
  reconciles : List Reconciling := []
  /-- the installations that wait for their breakpoint to be removed -/
  retiring : List ℕ := []
  /-- what `#handleResumeFailure` has put off with `setImmediate` -/
  failure : Option (List ProbeDefinition × JsString) := none
  seen : List Seen := []

namespace State

/-! ### Changes -/

def see (s : State) (seen : List Seen) : State := { s with seen := s.seen ++ seen }

def error (s : State) (probe : ProbeDefinition) (detail : JsString) : State :=
  { s with registry := s.registry.error probe.toPlaced detail }

/-- A change of the installations at some indices. -/
def change (s : State) (which : List ℕ) (f : InstalledProbe → InstalledProbe) : State :=
  { s with installations := s.installations.mapIdx fun o i => if o ∈ which then f i else i }

def setStage (s : State) (p : ℕ) (stage : Stage) : State :=
  { s with pauses := s.pauses.modify p fun pause => { pause with stage := stage } }

def setArm (s : State) (a : ℕ) (stage : ArmStage) : State :=
  { s with arms := s.arms.modify a fun arm => { arm with stage := stage } }

def setReconciling (s : State) (r : ℕ) (reconciling : Reconciling) : State :=
  { s with reconciles := s.reconciles.set r reconciling }

/-- `active = false` and `pending = 0`. -/
def deactivate (s : State) (which : List ℕ) : State := s.change which fun i => { i with active := false, pending := 0 }

def releaseBreakpointFor (s : State) (i : InstalledProbe) : State :=
  { s with registry := s.registry.releaseBreakpointFor i.breakpointId i.definition.id }

/-- The installations named by the map, and their definitions. -/
def standing (s : State) : List ProbeDefinition :=
  s.installed.values.filterMap fun o => (s.installations[o]?).map (·.definition)

/-! ### Removing probes -/

/-- `#retireAtHitLimit` -/
def retireAtHitLimit (s : State) (o : ℕ) : State :=
  match s.installations[o]? with
  | none => s
  | some i =>
    if s.installed.get? i.definition.id ≠ some o then s
    else
      releaseBreakpointFor
        { s.deactivate [o] with
          installed := s.installed.delete i.definition.id
          exhausted := s.exhausted.set i.definition.id i.definition.fingerprint
          retiring := s.retiring ++ [o]
          seen := s.seen ++ [.status i.definition.id .hitLimitReached none] } i

/-- `#retireAtHitLimit` once the breakpoint is removed. -/
def retired (s : State) (o : ℕ) (error : Option JsString) : State :=
  if o ∉ s.retiring then s
  else
    let t : State := { s with retiring := s.retiring.erase o }
    match s.installations[o]?, error with
    | some i, some message => t.error i.definition (js "inspector-remove: " ++ message)
    | _, _ => t

/-- `#uninstall` -/
def uninstall (s : State) (o : ℕ) : State :=
  match s.installations[o]? with
  | none => s
  | some i => releaseBreakpointFor { s.deactivate [o] with installed := s.installed.delete i.definition.id } i

/-- `#clearBreakpointRegistry`, and no probe is installed any more. -/
def clear (s : State) : State :=
  { s.deactivate s.installed.values with
    registry := s.registry.clearBreakpointRegistry
    installed := ∅ }

def suspendAll (s : State) (detail : JsString) : State :=
  if s.stopped || s.suspended then s
  else
    { s.clear with
      suspended := true
      epoch := s.epoch + 1
      seen := s.seen ++ s.standing.map fun probe => .status probe.id .suspended (some detail) }

/-- `rearm` up to its loop. -/
def rearm (s : State) : State := if s.stopped || s.inspectorFailed then s else { s with suspended := false }

def stop (s : State) : State :=
  if s.stopped then s else { s.clear with stopped := true, epoch := s.epoch + 1, desired := ∅ }

/-! ### Resuming -/

def candidatesOf (s : State) (p : ℕ) : List ℕ := ((s.pauses[p]?).map (·.candidates)).getD []

def releasePending (s : State) (candidates : List ℕ) : State :=
  s.change candidates fun i => { i with pending := i.pending - 1 }

/-- `#resumeWithFallback` up to the answer. -/
def resumeWithFallback (s : State) (p : ℕ) (onResumed : OnResumed) : State :=
  if s.inspectorFailed then (s.releasePending (s.candidatesOf p)).setStage p .settled
  else (s.see [.resume p]).setStage p (.resuming onResumed)

/-- `onResumed()` -/
def resumed (s : State) (p : ℕ) : OnResumed → State
  | .nothing => s.setStage p .settled
  | .process captureError capture => s.setStage p (.immediate captureError capture)

/-- `#handleResumeFailure`; `disconnectError` is what `disconnect` throws. -/
def handleResumeFailure (s : State) (p : ℕ) (firstError retryError : JsString) (disconnectError : Option JsString) :
    State :=
  let s := (s.releasePending (s.candidatesOf p)).setStage p .settled
  if s.inspectorFailed then s
  else
    let detail := match disconnectError with
      | none => js "session disconnected"
      | some message => js "disconnect failed: " ++ message
    { s.clear with
      inspectorFailed := true
      suspended := true
      epoch := s.epoch + 1
      failure := some (s.standing,
        js "inspector-resume-failed: " ++ firstError ++ js "; retry: " ++ retryError ++ js "; " ++ detail)
      seen := s.seen ++ [.disconnect] }

/-- The callback of a resume. -/
def answered (s : State) (p : ℕ) (error disconnectError : Option JsString) : State :=
  match s.pauses[p]? with
  | none => s
  | some pause =>
    match pause.stage, error with
    | .resuming onResumed, none => (s.see [.answer p true]).resumed p onResumed
    | .retrying _ onResumed, none => (s.see [.answer p true]).resumed p onResumed
    | .resuming onResumed, some firstError =>
      (s.see [.answer p false, .resume p]).setStage p (.retrying firstError onResumed)
    | .retrying firstError _, some retryError =>
      (s.see [.answer p false]).handleResumeFailure p firstError retryError disconnectError
    | _, _ => s

/-- What `#handleResumeFailure` has put off. -/
def report (s : State) : State :=
  match s.failure with
  | none => s
  | some (probes, detail) =>
    if s.stopped then { s with failure := none }
    else probes.foldl (fun s probe => s.error probe detail) { s with failure := none }

/-! ### Pauses -/

/-- The probes of a breakpoint. -/
def probeIdsAt (s : State) (breakpointId : JsString) : List JsString :=
  match s.registry.byBreakpoint.get? breakpointId with
  | none => []
  | some holder => ((s.registry.holders[holder]?).map (·.probeIds)).getD []

/-- The test of `handlePaused` on an installation. -/
def takesHit (s : State) (o : ℕ) : Bool :=
  (s.installations[o]?).any fun i =>
    i.active && !s.suspended && !s.inspectorFailed && i.hits + i.pending < i.definition.hitLimit

/-- The candidates of `handlePaused`; a probe is looked at once. -/
def candidates (s : State) (hitBreakpoints : List JsString) : List ℕ :=
  ((hitBreakpoints.flatMap s.probeIdsAt).eraseDups.filterMap s.installed.get?).filter s.takesHit

/-- The installations among `candidates` whose definition satisfies `p`. -/
def those (s : State) (p : ProbeDefinition → Bool) (candidates : List ℕ) : List ℕ :=
  candidates.filter fun o => (s.installations[o]?).any fun i => p i.definition

def pause (s : State) (candidates counted : List ℕ) : State :=
  { s with pauses := s.pauses ++ [⟨candidates, s.epoch, .capturing, counted⟩] }

/-- The branch of `handlePaused` without a token, up to `#resumeOnly`. -/
def overBudget (s : State) (candidates : List ℕ) : State :=
  let counted := s.those ProbeDefinition.plainCounter candidates
  { s.change counted fun i => { i with hits := i.hits + 1 } with
    droppedHits := if counted.length < candidates.length then s.droppedHits + 1 else s.droppedHits
    seen := s.seen ++ counted.map fun o => .counted o s.pauses.length }

/-- `handlePaused` up to its call of the inspector; `token` is the answer of `tryTake`. -/
def handlePaused (s : State) (hitBreakpoints : List JsString) (token : Bool) : State :=
  let candidates := s.candidates hitBreakpoints
  if candidates = [] then (s.pause [] []).resumeWithFallback s.pauses.length .nothing
  else if !token then
    ((s.overBudget candidates).pause [] (s.those ProbeDefinition.plainCounter candidates)).resumeWithFallback
      s.pauses.length .nothing
  else
    let s' := (s.change candidates fun i => { i with pending := i.pending + 1 }).pause candidates []
    if s.those (fun probe => !probe.plainCounter) candidates = [] then
      s'.resumeWithFallback s.pauses.length (.process none emptyCapture)
    else s'

/-- The hit limit of one of the probes that were counted. -/
def limitCounted (s : State) (o : ℕ) : State :=
  if (s.installations[o]?).any fun i => i.definition.hitLimit ≤ i.hits then s.retireAtHitLimit o else s

/-- The loop of `handlePaused` after `#resumeOnly`. -/
def retireCounted (s : State) (p : ℕ) : State :=
  match s.pauses[p]? with
  | none => s
  | some pause =>
    pause.counted.foldl limitCounted { s with pauses := s.pauses.modify p fun pause => { pause with counted := [] } }

/-- The callback of `capturePaused`, or what it throws. -/
def captured (s : State) (p : ℕ) (captureError : Option JsString) (capture : PauseCapture.RawCapture) : State :=
  match s.pauses[p]? with
  | some ⟨_, _, .capturing, _⟩ => s.resumeWithFallback p (.process captureError capture)
  | _ => s

section

variable (lower : JsString → JsString) (config : PauseCapture.ManagerConfig)

/-- A hit is counted, and the probe retired at its limit. -/
def countHit (s : State) (p o : ℕ) : State :=
  ((s.change [o] fun i => { i with hits := i.hits + 1 }).see [.hit o p]).limitCounted o

/-- One turn of the loop over the candidates in `#resumeAndProcess`. -/
def processCandidate (captureError : Option JsString) (capture : PauseCapture.RawCapture) (p : ℕ) (s : State) (o : ℕ) :
    State :=
  match s.installations[o]? with
  | none => s
  | some i =>
    if !i.active || s.installed.get? i.definition.id ≠ some o then s
    else
      match captureError with
      | some message => s.error i.definition (js "inspector-capture: " ++ message)
      | none =>
        match verdict lower config i.definition capture with
        | .skipped => s
        | .error detail => s.error i.definition detail
        | .hit => s.countHit p o

/-- The callback of `setImmediate` in `#resumeAndProcess`. -/
def process (s : State) (p : ℕ) : State :=
  match s.pauses[p]? with
  | some ⟨candidates, captureEpoch, .immediate captureError capture, _⟩ =>
    let s := (s.releasePending candidates).setStage p .settled
    if s.stopped || s.suspended || s.inspectorFailed || captureEpoch ≠ s.epoch then s
    else candidates.foldl (processCandidate lower config captureError capture p) s
  | _ => s

end

/-! ### Arming -/

/-- What `resolveBySuffix` answers; the paths are those of the matches, joined. -/
inductive Resolution
  | missing
  | ambiguous (paths : JsString)
  | found (script : NodeArming.RegisteredScript)

/-- `#ensureArmed` up to its await. -/
def ensureArmed (s : State) (probe : ProbeDefinition) (resolution : Resolution) : State :=
  if s.installed.has probe.id || probe.id ∈ s.installing || s.exhausted.get? probe.id = some probe.fingerprint ||
      s.stopped || s.suspended || s.inspectorFailed then s
  else
    let targetFile := probe.runtimeLocation.getD probe.file
    let targetLine := probe.runtimeLine.getD probe.line
    match resolution with
    | .missing => s.error probe (js "line-not-found: " ++ targetFile ++ js ":" ++ decimal targetLine)
    | .ambiguous paths => s.error probe (js "ambiguous-script: " ++ targetFile ++ js " matched " ++ paths)
    | .found script =>
      { s with
        installing := s.installing ++ [probe.id]
        arms := s.arms ++ [⟨probe, s.registry.calls.length, .acquiring⟩]
        registry := s.registry.acquire ⟨probe.toPlaced, script, targetLine, probe.runtimeColumn.getD 0⟩ }

/-- The end of a call of `#ensureArmed`. -/
def finishArm (s : State) (a : ℕ) (probeId : JsString) : State :=
  { s.setArm a .finished with installing := s.installing.filter (· ≠ probeId) }

/-- The probe is installed. -/
def install (s : State) (probe : ProbeDefinition) (breakpointId : JsString) : State :=
  { s with
    installations := s.installations ++ [{ definition := probe, breakpointId := breakpointId }]
    installed := s.installed.set probe.id s.installations.length
    registry := { s.registry with lastError := s.registry.lastError.delete probe.id }
    seen := s.seen ++ [.status probe.id .armed (some (probe.file ++ js ":" ++ decimal probe.line))] }

/-- `#ensureArmed` once `#acquireBreakpoint` has returned. -/
def acquired (s : State) (a : ℕ) : State :=
  match s.arms[a]? with
  | some ⟨probe, call, .acquiring⟩ =>
    match s.registry.calls[call]? with
    | some (_, .returned none) => s.finishArm a probe.id
    | some (_, .returned (some holder)) =>
      if (s.desired.get? probe.id).all (fun current => current.fingerprint ≠ probe.fingerprint) || s.stopped ||
          s.suspended then
        State.setArm { s with registry := s.registry.drop holder probe.id } a .releasing
      else
        (s.install probe (((s.registry.holders[holder]?).map (·.breakpointId)).getD [])).finishArm a probe.id
    | _ => s
  | _ => s

/-- `#ensureArmed` once the breakpoint is released. -/
def released (s : State) (a : ℕ) : State :=
  match s.arms[a]? with
  | some ⟨probe, _, .releasing⟩ => s.finishArm a probe.id
  | _ => s

/-! ### Reconciling -/

/-- The last of the probes with an identifier. -/
def wanted (probes : List ProbeDefinition) (id : JsString) : Option ProbeDefinition :=
  probes.reverse.find? fun probe => probe.id = id

/-- No probe is wanted under the identifier, or another definition is. -/
def gone (probes : List ProbeDefinition) (id fingerprint : JsString) : Bool :=
  (wanted probes id).all fun probe => probe.fingerprint ≠ fingerprint

/-- `reconcile` up to its first loop. -/
def reconcile (s : State) (probes : List ProbeDefinition) : State :=
  if s.stopped then s
  else
    let changed := probes.length ≠ s.desired.size ∨
      ∃ probe ∈ probes, (s.desired.get? probe.id).all fun current => probe.fingerprint ≠ current.fingerprint
    { s with
      epoch := if changed then s.epoch + 1 else s.epoch
      reconciles := s.reconciles ++ [⟨probes, s.installed.entries, false⟩] }

/-- One turn of the loop over the installed probes, or what comes after the last. -/
def reconcileNext (s : State) (r : ℕ) : State :=
  match s.reconciles[r]? with
  | some ⟨probes, (id, o) :: rest, false⟩ =>
    let s := s.setReconciling r ⟨probes, rest, false⟩
    if (s.installations[o]?).any fun i => gone probes id i.definition.fingerprint then s.uninstall o else s
  | some ⟨probes, [], false⟩ =>
    { s.setReconciling r ⟨probes, [], true⟩ with
      exhausted := s.exhausted.filter fun id fingerprint => !gone probes id fingerprint
      desired := .ofEntries (probes.map fun probe => (probe.id, probe)) }
  | _ => s

end State

/-! ### Steps -/

inductive Event
  | paused (hitBreakpoints : List JsString) (token : Bool)
  | retireCounted (pause : ℕ)
  | captured (pause : ℕ) (captureError : Option JsString) (capture : PauseCapture.RawCapture)
  | answered (pause : ℕ) (error disconnectError : Option JsString)
  | process (pause : ℕ)
  | report
  | retired (installation : ℕ) (error : Option JsString)
  /-- from `reconcile`, `rearm`, `onScriptAvailable` or the end of another call -/
  | ensureArmed (probe : ProbeDefinition) (resolution : State.Resolution)
  | acquired (arm : ℕ)
  | released (arm : ℕ)
  /-- a stretch of the registry's own -/
  | registry (e : NodeArming.Event)
  | reconcile (probes : List ProbeDefinition)
  | reconcileNext (reconciling : ℕ)
  | suspendAll (detail : JsString)
  | rearm
  | stop

/-- The stretches of the registry that no stretch of the manager contains. -/
def ownStretch : NodeArming.Event → Bool
  | .answer .. | .install _ | .removed _ | .resume _ | .remove _ => true
  | _ => false

def next (lower : JsString → JsString) (config : PauseCapture.ManagerConfig) (s : State) : Event → State
  | .paused hitBreakpoints token => s.handlePaused hitBreakpoints token
  | .retireCounted p => s.retireCounted p
  | .captured p captureError capture => s.captured p captureError capture
  | .answered p error disconnectError => s.answered p error disconnectError
  | .process p => s.process lower config p
  | .report => s.report
  | .retired o error => s.retired o error
  | .ensureArmed probe resolution => s.ensureArmed probe resolution
  | .acquired a => s.acquired a
  | .released a => s.released a
  | .registry e => if ownStretch e then { s with registry := NodeArming.next s.registry e } else s
  | .reconcile probes => s.reconcile probes
  | .reconcileNext r => s.reconcileNext r
  | .suspendAll detail => s.suspendAll detail
  | .rearm => s.rearm
  | .stop => s.stop

end NodeProbes
