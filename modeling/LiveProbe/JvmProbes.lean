/-
LiveProbe/JvmProbes.lean

The probe manager of the JVM bridge.

A managed probe has breakpoint requests in the target.  A hit over the budget
of hits per second disables its request until the window is over, and the
manager counts the requests it holds disabled so (`suspendedRequests`).

Managed probes and requests are objects that tasks go on holding after the
manager has let go of them.  They are numbered in the order they were made, and
an identity set is a set of numbers.  Which calls of the debug interface throw
is up to `Jdi`; a request that was deleted is a disabled one.  The locked methods
run one after another, and so do the steps of `Bridge`.
-/
import LiveProbe.Events
import LiveProbe.JsMap
import LiveProbe.Transition
import Mathlib.Data.Finset.Card

namespace JvmBridge

open JsString

/-! ### The budget of hits -/

structure RateLimiter where
  permitsPerSecond : ℕ
  windowStart : ℤ
  used : ℕ := 0
  deriving DecidableEq, Repr

namespace RateLimiter

def windowNanos : ℤ := 1000000000

def rollWindow (now : ℤ) (l : RateLimiter) : RateLimiter :=
  let elapsed := now - l.windowStart
  if elapsed < 0 ∨ windowNanos ≤ elapsed then { l with windowStart := now, used := 0 } else l

def tryAcquire (now : ℤ) (l : RateLimiter) : RateLimiter × Bool :=
  let l := l.rollWindow now
  if l.permitsPerSecond ≤ l.used then (l, false) else ({ l with used := l.used + 1 }, true)

def nanosUntilReset (now : ℤ) (l : RateLimiter) : RateLimiter × ℤ :=
  let l := l.rollWindow now
  (l, if l.used < l.permitsPerSecond then 0 else max 1 (windowNanos - max 0 (now - l.windowStart)))

end RateLimiter

/-! ### The debug interface -/

/-- How a call of the debug interface ends: it answers, it throws
`AbsentInformationException`, or something else that is unchecked. -/
inductive Answer (α : Type)
  | ok (a : α)
  | absent
  | fails
  deriving DecidableEq, Repr

/-- A class of the target; a location stands for its `locationKey`. -/
structure ReferenceType where
  prepared : Bool
  sourcePaths : Answer (List JsString)
  sourceNames : Answer (List JsString)
  locationsOfLine : ℕ → Answer (List JsString)

/-- The calls on breakpoint requests. -/
inductive JdiCall
  | createBreakpointRequest | setSuspendPolicy | enable | disable | deleteEventRequest
  deriving DecidableEq, Repr

/-- What the debug interface does during one method of the manager: which calls
throw on which request, and the classes it lists for each managed probe. -/
structure Jdi where
  throws : JdiCall → ℕ → Bool
  allClasses : ℕ → Option (List ReferenceType)

namespace SourceResolver

def dropDotSlash : JsString → JsString
  | c :: d :: rest => if c = 0x2E ∧ d = 0x2F then dropDotSlash rest else c :: d :: rest
  | path => path

def normalize (path : JsString) : JsString :=
  dropDotSlash (path.map fun c => if c = 0x5C then 0x2F else c)

def suffixMatches (known requested : JsString) : Bool :=
  known = requested || (0x2F :: requested).isSuffixOf known || (0x2F :: known).isSuffixOf requested

/-- `matches`; nothing when a call throws. -/
def matchesType (type : ReferenceType) (requestedFile : JsString) : Option Bool :=
  let names (known : List JsString) : Bool :=
    known.any fun k => suffixMatches (normalize k) (normalize requestedFile)
  let fallThrough : Option Bool := match type.sourceNames with
    | .ok l => some (names l)
    | .absent => some false
    | .fails => none
  match type.sourcePaths with
  | .ok l => if names l then some true else fallThrough
  | .absent => fallThrough
  | .fails => none

end SourceResolver

/-! ### The manager -/

/-- `Protocol.ProbeDefinition`; two are equal when all their components are. -/
structure Definition where
  id : JsString
  serviceId : JsString
  type : ProbeType
  file : JsString
  line : ℕ
  condition : Option Condition
  conditionExpression : Option CompiledExpression
  watchPaths : List JsString
  watchExpressions : List CompiledExpression
  includeStackLocals : Bool
  stackFrameLimit : ℕ
  template : Option JsString
  logLevel : LogLevel
  templateSegments : List TemplateSegment
  metricPath : Option JsString
  metricExpression : Option CompiledExpression
  hitLimit : ℕ
  ttlSeconds : ℕ
  version : ℕ
  createdBy : JsString
  deriving DecidableEq, Repr

structure ManagedProbe where
  definition : Definition
  requests : List ℕ := []
  locationKeys : List JsString := []
  rateDisabled : Finset ℕ := ∅
  /-- The slots of `emittedSlots` that are claimed. -/
  claimed : ℕ := 0
  active : Bool := true
  completed : Bool := false
  armedReported : Bool := false
  lineErrorReported : Bool := false
  debugInfoErrorReported : Bool := false

/-- A breakpoint request with the probe it is a property of. -/
structure BreakpointRequest where
  managed : ℕ
  enabled : Bool := false
  deriving DecidableEq, Repr

structure StatusEvent where
  probeId : JsString
  status : ProbeStatusName
  detail : Option JsString
  deriving DecidableEq, Repr

inductive CaptureOutcome
  | captured (managed : ℕ)
  | rateLimited (managed request : ℕ) (waitNanos : ℤ)
  | failed (managed : ℕ) (detail : JsString)
  | ignored
  deriving DecidableEq, Repr

structure ProbeManager where
  rateLimiter : RateLimiter
  /-- Every managed probe that was made. -/
  objects : List ManagedProbe := []
  /-- Every breakpoint request that was made. -/
  requests : List BreakpointRequest := []
  probes : JsMap JsString ℕ := ∅
  suspendedRequests : ℕ := 0
  /-- What was added to the event buffer. -/
  reported : List StatusEvent := []

namespace ProbeManager

def update (o : ℕ) (f : ManagedProbe → ManagedProbe) (s : ProbeManager) : ProbeManager :=
  { s with objects := s.objects.modify o f }

def setEnabled (r : ℕ) (enabled : Bool) (s : ProbeManager) : ProbeManager :=
  { s with requests := s.requests.modify r fun q => { q with enabled } }

def report (probeId : JsString) (status : ProbeStatusName) (detail : Option JsString) (s : ProbeManager) :
    ProbeManager :=
  { s with reported := s.reported ++ [⟨probeId, status, detail⟩] }

def requestsOf (o : ℕ) (s : ProbeManager) : List ℕ := (s.objects[o]?.map (·.requests)).getD []

def rateDisabledOf (o : ℕ) (s : ProbeManager) : Finset ℕ := (s.objects[o]?.map (·.rateDisabled)).getD ∅

/-! #### Letting go of requests -/

/-- A call that fails is ignored. -/
def disable (jdi : Jdi) (s : ProbeManager) (r : ℕ) : ProbeManager :=
  if jdi.throws .disable r then s else s.setEnabled r false

def deleteEventRequest (jdi : Jdi) (s : ProbeManager) (r : ℕ) : ProbeManager :=
  if jdi.throws .deleteEventRequest r then s else s.setEnabled r false

def disableAll (jdi : Jdi) (o : ℕ) (s : ProbeManager) : ProbeManager :=
  (s.requestsOf o).foldl (disable jdi) s

/-- A request leaves `rateDisabled`, and is no longer counted; the count is
clamped at zero. -/
def forget (o r : ℕ) (s : ProbeManager) : ProbeManager :=
  { s.update o fun m => { m with rateDisabled := m.rateDisabled.erase r } with
    suspendedRequests := s.suspendedRequests - 1 }

/-- The body of the loops of `uninstall` and of `retireCompleted`. -/
def retireRequest (jdi : Jdi) (o : ℕ) (s : ProbeManager) (r : ℕ) : ProbeManager :=
  (if r ∈ s.rateDisabledOf o then s.forget o r else s).deleteEventRequest jdi r

def retireRequests (jdi : Jdi) (o : ℕ) (s : ProbeManager) : ProbeManager :=
  ((s.requestsOf o).foldl (retireRequest jdi o) s).update o fun m => { m with requests := [] }

def retireCompleted (jdi : Jdi) (o : ℕ) (s : ProbeManager) : ProbeManager := s.retireRequests jdi o

def uninstall (jdi : Jdi) (o : ℕ) (s : ProbeManager) : ProbeManager :=
  ((s.update o fun m => { m with active := false }).disableAll jdi o).retireRequests jdi o

def completeMatchingLimit (jdi : Jdi) (o : ℕ) (s : ProbeManager) : ProbeManager :=
  match s.objects[o]? with
  | none => s
  | some m =>
    if !m.active || m.completed || s.probes.get? m.definition.id ≠ some o then s
    else
      (((s.update o fun m => { m with completed := true }).disableAll jdi o).retireCompleted jdi o).report
        m.definition.id .hitLimitReached none

/-! #### Arming -/

/-- Calls in a row, until one throws; what they return is summed up. -/
def sumUntil {β : Type} (f : β → ProbeManager → ProbeManager × Option ℕ) :
    List β → ProbeManager → ProbeManager × Option ℕ
  | [], s => (s, some 0)
  | b :: rest, s =>
    match f b s with
    | (s, none) => (s, none)
    | (s, some n) =>
      match sumUntil f rest s with
      | (s, none) => (s, none)
      | (s, some k) => (s, some (n + k))

/-- The new request is enabled, and the probe's. -/
def place (o r : ℕ) (s : ProbeManager) : ProbeManager :=
  (s.setEnabled r true).update o fun m => { m with requests := m.requests ++ [r] }

/-- The body of the loop of `armInType`; nothing is returned when a call throws. -/
def armLocation (jdi : Jdi) (o : ℕ) (key : JsString) (s : ProbeManager) : ProbeManager × Option ℕ :=
  if (s.objects[o]?.map (·.locationKeys)).getD [] |>.contains key then (s, some 0)
  else
    let r := s.requests.length
    let s := s.update o fun m => { m with locationKeys := m.locationKeys ++ [key] }
    if jdi.throws .createBreakpointRequest r then (s, none)
    else
      let s := { s with requests := s.requests ++ [{ managed := o }] }
      if jdi.throws .setSuspendPolicy r || jdi.throws .enable r then (s, none)
      else (s.place o r, some 1)

def armInType (jdi : Jdi) (o : ℕ) (type : ReferenceType) (s : ProbeManager) : ProbeManager × Option ℕ :=
  match s.objects[o]? with
  | none => (s, some 0)
  | some m =>
    if !type.prepared then (s, some 0)
    else
      match SourceResolver.matchesType type m.definition.file with
      | none => (s, none)
      | some false => (s, some 0)
      | some true =>
        match type.locationsOfLine m.definition.line with
        | .fails => (s, none)
        | .absent =>
          if m.debugInfoErrorReported then (s, some 0)
          else
            ((s.update o fun m => { m with debugInfoErrorReported := true }).report m.definition.id .error
              (some (js "absent-debug-info; compile target with -g")), some 0)
        | .ok keys => sumUntil (armLocation jdi o) keys s

def reportArmed (o : ℕ) (s : ProbeManager) : ProbeManager :=
  match s.objects[o]? with
  | none => s
  | some m =>
    if m.armedReported then s
    else
      (s.update o fun m => { m with armedReported := true }).report m.definition.id .armed
        (some (m.definition.file ++ js ":" ++ decimal m.definition.line))

/-! #### Reconciliation -/

/-- A probe that is no longer desired as it is goes. -/
def removeStale (jdi : Jdi) (desired : JsMap JsString Definition) (s : ProbeManager) (entry : JsString × ℕ) :
    ProbeManager :=
  if desired.get? entry.1 = s.objects[entry.2]?.map (·.definition) then s
  else { s.uninstall jdi entry.2 with probes := s.probes.delete entry.1 }

/-- A probe enters the map. -/
def enter (definition : Definition) (s : ProbeManager) : ProbeManager :=
  { s with
    objects := s.objects ++ [{ definition }]
    probes := s.probes.set definition.id s.objects.length }

/-- The body of the second loop of `reconcile`, and whether the loop goes on. -/
def install (jdi : Jdi) (definition : Definition) (s : ProbeManager) : ProbeManager × Bool :=
  if s.probes.has definition.id then (s, true)
  else
    let o := s.objects.length
    let s := s.enter definition
    match jdi.allClasses o with
    | none => (s, false)
    | some types =>
      match sumUntil (armInType jdi o) types s with
      | (s, none) => (s, false)
      | (s, some 0) =>
        ((s.update o fun m => { m with lineErrorReported := true }).report definition.id .error
          (some (js "line-not-found; waiting for class prepare")), true)
      | (s, some _) => (s.reportArmed o, true)

def installAll (jdi : Jdi) : List Definition → ProbeManager → ProbeManager
  | [], s => s
  | definition :: rest, s =>
    match s.install jdi definition with
    | (s, true) => installAll jdi rest s
    | (s, false) => s

def reconcile (jdi : Jdi) (definitions : List Definition) (s : ProbeManager) : ProbeManager :=
  let desired := JsMap.ofEntries (definitions.map fun d => (d.id, d))
  (s.probes.entries.foldl (removeStale jdi desired) s).installAll jdi definitions

/-- The loop of `onClassPrepared`. -/
def prepareAll (jdi : Jdi) (type : ReferenceType) : List ℕ → ProbeManager → ProbeManager
  | [], s => s
  | o :: rest, s =>
    if (s.objects[o]?).any (·.completed) then prepareAll jdi type rest s
    else
      match s.armInType jdi o type with
      | (s, none) => s
      | (s, some n) => prepareAll jdi type rest (if 0 < n then s.reportArmed o else s)

def onClassPrepared (jdi : Jdi) (type : ReferenceType) (s : ProbeManager) : ProbeManager :=
  s.prepareAll jdi type s.probes.values

def close (jdi : Jdi) (s : ProbeManager) : ProbeManager :=
  { s.probes.values.foldl (fun s o => s.uninstall jdi o) s with probes := ∅ }

end ProbeManager

/-- How a read of the suspended thread ends. -/
inductive FrameRead
  | ok
  /-- `AbsentInformationException` -/
  | absent
  /-- `IncompatibleThreadStateException` or `IndexOutOfBoundsException` -/
  | unavailable
  /-- Another unchecked exception. -/
  | fails
  deriving DecidableEq, Repr

/-- The reads of one capture. -/
structure FrameReads where
  frame : FrameRead
  locals : FrameRead
  stack : FrameRead

namespace ProbeManager

def absentLocals : JsString := js "local-variable-debug-info-unavailable"

def absentFrame : JsString := js "event-thread-frame-unavailable"

/-- The end of a read that nobody catches before `capture` does. -/
def readEnd (o : ℕ) (done : CaptureOutcome) : FrameRead → Option CaptureOutcome
  | .ok => some done
  | .absent => some (.failed o absentLocals)
  | .unavailable => some (.failed o absentFrame)
  | .fails => none

/-- What a hit within the budget ends with; nothing when it throws. -/
def readHit (definition : Definition) (reads : FrameReads) (o : ℕ) : Option CaptureOutcome :=
  let includeStackLocals := definition.type = .snapshot && definition.includeStackLocals
  let stack := if definition.type = .snapshot then readEnd o (.captured o) reads.stack else some (.captured o)
  match reads.frame with
  | .ok =>
    match reads.locals with
    | .ok => stack
    | .absent => if includeStackLocals then stack else some (.failed o absentLocals)
    | _ => if includeStackLocals then stack else some (.failed o absentFrame)
  | read => readEnd o .ignored read

/-- The probe a request is a property of. -/
def managedOf (r : ℕ) (s : ProbeManager) : Option (ℕ × ManagedProbe) :=
  (s.requests[r]?).bind fun q => (s.objects[q.managed]?).map fun m => (q.managed, m)

/-- A request over the budget is taken into `rateDisabled`, disabled, and
counted once the call is through. -/
def suspend (jdi : Jdi) (o r : ℕ) (s : ProbeManager) : ProbeManager × Bool :=
  let s := s.update o fun m => { m with rateDisabled := insert r m.rateDisabled }
  if jdi.throws .disable r then (s, false)
  else ({ s.setEnabled r false with suspendedRequests := s.suspendedRequests + 1 }, true)

def capture (jdi : Jdi) (now later : ℤ) (reads : FrameReads) (r : ℕ) (s : ProbeManager) :
    ProbeManager × Option CaptureOutcome :=
  match s.managedOf r with
  | none => (s, some .ignored)
  | some (o, m) =>
    if !m.active || m.completed || !s.probes.has m.definition.id then (s, some .ignored)
    else
      let acquired := s.rateLimiter.tryAcquire now
      let s := { s with rateLimiter := acquired.1 }
      if acquired.2 then (s, readHit m.definition reads o)
      else
        match if r ∈ m.rateDisabled then (s, true) else s.suspend jdi o r with
        | (s, false) => (s, none)
        | (s, true) =>
          let wait := s.rateLimiter.nanosUntilReset later
          ({ s with rateLimiter := wait.1 }, some (.rateLimited o r wait.2))

def reenable (jdi : Jdi) (o r : ℕ) (s : ProbeManager) : ProbeManager :=
  match s.objects[o]? with
  | none => s
  | some m =>
    if r ∉ m.rateDisabled then s
    else
      let s := s.forget o r
      if m.active && !m.completed && m.requests.contains r then
        if jdi.throws .enable r then s
        else (s.setEnabled r true).report m.definition.id .armed (some (js "rate limit window reset"))
      else s

def agentStatus (s : ProbeManager) : AgentStatus :=
  if 0 < s.suspendedRequests then
    { state := .red
      detail := some (decimal s.suspendedRequests ++ js " breakpoint request(s) rate-limited")
      reasonCode := some .rateLimited }
  else
    let armed := (s.probes.values.filter fun o => (s.objects[o]?).any (!·.completed)).length
    { state := .green, detail := some (decimal armed ++ js " probe(s) active") }

end ProbeManager

/-! ### The bridge -/

inductive ProcessorTask
  | process (managed : ℕ)
  | countWithoutCapture (managed : ℕ)
  deriving DecidableEq, Repr

/-- `HitProcessor.isPlainCounter` -/
def Definition.isPlainCounter (d : Definition) : Bool :=
  d.type = .counter && d.condition.isNone && d.conditionExpression.isNone

/-- A task of the safety executor. -/
structure Scheduled where
  managed : ℕ
  request : ℕ
  delay : ℤ
  deriving DecidableEq, Repr

/-- The manager with what is under way around it. -/
structure Bridge where
  manager : ProbeManager
  /-- The breakpoint events that are queued. -/
  events : List ℕ := []
  /-- The outcomes whose threads are to be resumed. -/
  outcomes : List CaptureOutcome := []
  tasks : List ProcessorTask := []
  /-- The calls of `onLimitReached` that are to come. -/
  limits : List ℕ := []
  scheduled : List Scheduled := []

inductive BridgeEvent
  | reconcile (jdi : Jdi) (definitions : List Definition)
  | onClassPrepared (jdi : Jdi) (type : ReferenceType)
  /-- The target stops at a request. -/
  | breakpoint (request : ℕ)
  | capture (jdi : Jdi) (now later : ℤ) (reads : FrameReads)
  | afterResume (index : ℕ)
  /-- A task is run; `holds` is what the conditions of its probe say. -/
  | process (index : ℕ) (holds : Bool)
  | completeMatchingLimit (jdi : Jdi) (index : ℕ)
  | reenable (jdi : Jdi) (index : ℕ)
  | close (jdi : Jdi)

namespace Bridge

def start (limiter : RateLimiter) : Bridge := { manager := { rateLimiter := limiter } }

def afterResume (outcome : CaptureOutcome) (p : Bridge) : Bridge :=
  let id (o : ℕ) : JsString := (p.manager.objects[o]?.map (·.definition.id)).getD []
  match outcome with
  | .captured o => { p with tasks := p.tasks ++ [.process o] }
  | .failed o detail => { p with manager := p.manager.report (id o) .error (some detail) }
  | .rateLimited o r waitNanos =>
    { p with
      manager := p.manager.report (id o) .suspended (some (js "hits-per-second limit"))
      tasks :=
        if (p.manager.objects[o]?).any (·.definition.isPlainCounter) then
          p.tasks ++ [.countWithoutCapture o]
        else p.tasks
      scheduled := p.scheduled ++ [⟨o, r, max 1000000 waitNanos⟩] }
  | .ignored => p

/-- `EmittedSlots.tryClaim`, and the notice when it takes the last slot. -/
def claim (o : ℕ) (p : Bridge) : Bridge :=
  match p.manager.objects[o]? with
  | none => p
  | some m =>
    if m.definition.hitLimit ≤ m.claimed then p
    else
      { p with
        manager := p.manager.update o fun m => { m with claimed := m.claimed + 1 }
        limits := if m.claimed + 1 = m.definition.hitLimit then p.limits ++ [o] else p.limits }

def process (task : ProcessorTask) (holds : Bool) (p : Bridge) : Bridge :=
  match task with
  | .process o => if holds then p.claim o else p
  | .countWithoutCapture o => p.claim o

def next (p : Bridge) : BridgeEvent → Bridge
  | .reconcile jdi definitions => { p with manager := p.manager.reconcile jdi definitions }
  | .onClassPrepared jdi type => { p with manager := p.manager.onClassPrepared jdi type }
  | .breakpoint r =>
    if (p.manager.requests[r]?).any (·.enabled) then { p with events := p.events ++ [r] } else p
  | .capture jdi now later reads =>
    match p.events with
    | [] => p
    | r :: rest =>
      let captured := p.manager.capture jdi now later reads r
      { p with manager := captured.1, events := rest, outcomes := p.outcomes ++ captured.2.toList }
  | .afterResume index =>
    match p.outcomes[index]? with
    | none => p
    | some outcome => afterResume outcome { p with outcomes := p.outcomes.eraseIdx index }
  | .process index holds =>
    match p.tasks[index]? with
    | none => p
    | some task => process task holds { p with tasks := p.tasks.eraseIdx index }
  | .completeMatchingLimit jdi index =>
    match p.limits[index]? with
    | none => p
    | some o =>
      { p with manager := p.manager.completeMatchingLimit jdi o, limits := p.limits.eraseIdx index }
  | .reenable jdi index =>
    match p.scheduled[index]? with
    | none => p
    | some task =>
      { p with
        manager := p.manager.reenable jdi task.managed task.request
        scheduled := p.scheduled.eraseIdx index }
  | .close jdi => { p with manager := p.manager.close jdi }

end Bridge

end JvmBridge
