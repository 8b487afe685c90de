/-
LiveProbe/PythonProbes.lean

The probes of the Python agent at work: `ProbeState` and its reservations, the
monitoring callback `_on_line`, and the worker's `_drain_queue` and `_reconcile`,
of `runtime.py`.

Callbacks on the threads of the application and the worker go on at once.  One
step is what a lock of a state guards, one operation of the queue, or one read
or write of a field.  The lock of the table of states is not modelled, so there
are more interleavings here than in the agent.

What is computed of a hit is left to a `Pipeline`, which may raise; `print` and
`restart_events` raise when the environment says so.
-/
import LiveProbe.Events
import LiveProbe.Interleaving
import LiveProbe.PythonRuntime

open Interleaving

namespace PythonAgent

/-! ### Probe states -/

/-- `Probe`, with its place and its limit. -/
structure PlacedProbe extends PyProbe where
  file : PyString
  suffix : PyString
  line : ℕ
  hitLimit : ℤ
  hitLimit_pos : 0 < hitLimit

/-- `_is_plain_counter` -/
def isPlainCounter (probe : PyProbe) : Bool :=
  probe.kind = .counter && probe.condition.isNone && probe.conditionExpression.isNone

structure ProbeState where
  probe : PlacedProbe
  emitted : ℤ := 0
  inFlight : ℤ := 0
  active : Bool := true
  lastError : Option PyString := none
  unresolved : Option PyString := none

namespace ProbeState

variable (state : ProbeState)

def reserve : Option ProbeState :=
  if !state.active || state.emitted + state.inFlight ≥ state.probe.hitLimit then none
  else some { state with inFlight := state.inFlight + 1 }

/-- One more hit is emitted; the answer is `(True, reached_limit)`. -/
def emit : (Bool × Bool) × ProbeState :=
  if state.emitted + 1 ≥ state.probe.hitLimit then
    ((true, true), { state with emitted := state.emitted + 1, active := false })
  else ((true, false), { state with emitted := state.emitted + 1 })

/-- `_finish_reservation`, for a reservation that is not finished. -/
def finish (emits : Bool) : (Bool × Bool) × ProbeState :=
  let state := { state with inFlight := state.inFlight - 1 }
  if !emits || !state.active then ((false, false), state) else state.emit

def count : (Bool × Bool) × ProbeState :=
  if !state.active || state.emitted + state.inFlight ≥ state.probe.hitLimit then
    ((false, false), state)
  else state.emit

end ProbeState

/-- `ProbeReservation`, of the state at an index. -/
structure ProbeReservation where
  state : ℕ
  finished : Bool := false

/-- `ProbeCandidate`; states and reservations are given by their index. -/
structure ProbeCandidate where
  state : ℕ
  reservation : Option ℕ

/-! ### The agent -/

inductive LifecycleAction
  | armed | expired | suspended | rearmed | hitLimit | error
  deriving DecidableEq, Repr

structure Lifecycle where
  action : LifecycleAction
  states : List ℕ
  detail : PyString
  deriving DecidableEq

/-- What the queue holds. -/
inductive Item
  | hit (candidates : List ProbeCandidate) (hit : RawHit)
  | lifecycle (lifecycle : Lifecycle)

/-- An event that goes to the broker. -/
inductive PyEvent
  | produced (probeId : PyString) (event : Produced)
  | status (probeId : PyString) (status : ProbeStatusName) (detail : PyString)

/-- `MetricAggregate`, by the samples that were added. -/
structure MetricAggregate where
  count : ℕ
  samples : List PyNumber

/-- `LiveProbe`, with every state and reservation ever made. -/
structure Agent where
  states : List ProbeState := []
  reservations : List ProbeReservation := []
  /-- `_states` -/
  table : JsMap PyString ℕ := ∅
  activeByLine : JsMap ℕ (List ℕ) := ∅
  rawQueue : List Item := []
  queueSize : ℕ
  events : List PyEvent := []
  counterAggregates : JsMap PyString ℕ := ∅
  metricAggregates : JsMap PyString MetricAggregate := ∅
  uncapturedCounters : JsMap PyString ℕ := ∅
  droppedHits : ℕ := 0
  stopping : Bool := false
  /-- `_agent_state == "red"` -/
  red : Bool := false
  installed : Bool := true
  /-- Whether `print` to the output raises. -/
  outputFails : Bool := false
  /-- Whether `monitoring.restart_events` raises. -/
  monitoringFails : Bool := false

/-- What is seen of the steps. -/
inductive Seen
  /-- A callback, or a task of the worker, begins. -/
  | begun
  /-- `_append_event`, for the probe of a state. -/
  | appended (state : ℕ) (event : PyEvent)
  /-- A lifecycle found the queue full. -/
  | full (lifecycle : Lifecycle)
  /-- An exception came between a state's reaching of its limit and its status. -/
  | unnoticed (state : ℕ)

abbrev Code (α : Type) := Program Agent Seen α

namespace Agent

variable (s : Agent)

def setState (o : ℕ) (f : ProbeState → ProbeState) : Agent := { s with states := s.states.modify o f }

/-- `ProbeState.reserve` of the state at `o`. -/
def reserve (o : ℕ) : Option ℕ × Agent :=
  match s.states[o]?.bind ProbeState.reserve with
  | none => (none, s)
  | some state =>
    (some s.reservations.length,
      { s with states := s.states.set o state, reservations := s.reservations ++ [{ state := o }] })

/-- `ProbeReservation.release` and `commit` -/
def finish (r : ℕ) (emits : Bool) : (Bool × Bool) × Agent :=
  match s.reservations[r]? with
  | none => ((false, false), s)
  | some reservation =>
    if reservation.finished then ((false, false), s)
    else
      match s.states[reservation.state]? with
      | none => ((false, false), s)
      | some state =>
        ((state.finish emits).1,
          { s with
            states := s.states.set reservation.state (state.finish emits).2
            reservations := s.reservations.set r { reservation with finished := true } })

/-- `ProbeState.count` of the state at `o`. -/
def count (o : ℕ) : (Bool × Bool) × Agent :=
  match s.states[o]? with
  | none => ((false, false), s)
  | some state => (state.count.1, { s with states := s.states.set o state.count.2 })

def hasRoom : Bool := s.rawQueue.length < s.queueSize

def put (item : Item) : Agent := { s with rawQueue := s.rawQueue ++ [item] }

/-- The states of the lines, for `_active_by_line`. -/
def linesOf (active : List ℕ) : JsMap ℕ (List ℕ) :=
  active.foldl (fun lines o =>
    match s.states[o]? with
    | none => lines
    | some state => lines.set state.probe.line ((lines.get? state.probe.line).getD [] ++ [o])) ∅

end Agent

/-! ### Reservations -/

def probeOf (o : ℕ) : Code (Option PlacedProbe) := .read fun s => s.states[o]?.map ProbeState.probe

def isActive (o : ℕ) : Code Bool := .read fun s => (s.states[o]?.map ProbeState.active).getD false

/-- The states that are found to be active. -/
def activeOf : List ℕ → Code (List ℕ)
  | [] => pure []
  | o :: rest => do
    let active ← isActive o
    let others ← activeOf rest
    pure (if active then o :: others else others)

def deactivate (o : ℕ) : Code Unit :=
  .act (fun _ => ()) (fun s => s.setState o fun state => { state with active := false }) fun _ => []

def reserve (o : ℕ) : Code (Option ℕ) :=
  .act (fun s => (s.reserve o).1) (fun s => (s.reserve o).2) fun _ => []

def count (o : ℕ) : Code (Bool × Bool) :=
  .act (fun s => (s.count o).1) (fun s => (s.count o).2) fun _ => []

def commit (r : ℕ) : Code (Bool × Bool) :=
  .act (fun s => (s.finish r true).1) (fun s => (s.finish r true).2) fun _ => []

/-- `release` of a candidate's reservation, if it has one. -/
def release (candidate : ProbeCandidate) : Code Unit :=
  match candidate.reservation with
  | none => pure ()
  | some r => .act (fun _ => ()) (fun s => (s.finish r false).2) fun _ => []

def releaseAll : List ProbeCandidate → Code Unit
  | [] => pure ()
  | candidate :: rest => do
    release candidate
    releaseAll rest

/-! ### The queue and the events -/

/-- `_dropped_hits += n` -/
def addDropped (n : ℕ) : Code Unit := do
  let dropped ← .read Agent.droppedHits
  .act (fun _ => ()) (fun s => { s with droppedHits := dropped + n }) fun _ => []

/-- `put_nowait` of a hit; the answer is whether there was room. -/
def putHit (candidates : List ProbeCandidate) (hit : RawHit) : Code Bool :=
  .act Agent.hasRoom (fun s => if s.hasRoom then s.put (.hit candidates hit) else s) fun _ => []

def putLifecycle (lifecycle : Lifecycle) : Code Bool :=
  .act Agent.hasRoom (fun s => if s.hasRoom then s.put (.lifecycle lifecycle) else s)
    fun s => if s.hasRoom then [] else [.full lifecycle]

/-- `_enqueue_lifecycle` -/
def enqueueLifecycle (action : LifecycleAction) (states : List ℕ) (detail : PyString) : Code Unit := do
  let queued ← putLifecycle { action, states, detail }
  if queued then pure () else addDropped states.length

def getNowait : Code (Option Item) :=
  .act (fun s => s.rawQueue.head?) (fun s => { s with rawQueue := s.rawQueue.tail }) fun _ => []

def pushEvent (o : ℕ) (event : PyEvent) : Code Unit :=
  .act (fun _ => ()) (fun s => { s with events := s.events ++ [event] }) fun _ => [.appended o event]

/-- `_append_event` -/
def appendEvent (o : ℕ) (event : PyEvent) : Code Unit := do
  let full ← .read fun s => decide (s.queueSize ≤ s.events.length)
  if full then do
    .act (fun _ => ()) (fun s => { s with events := s.events.tail }) fun _ => []
    addDropped 1
    pushEvent o event
  else pushEvent o event

/-- `_status` -/
def status (o : ℕ) (name : ProbeStatusName) (detail : PyString) : Code Unit := do
  let probe ← probeOf o
  appendEvent o (.status ((probe.map (·.probeId)).getD []) name detail)

/-- `_audit`; the answer is whether `print` came back. -/
def audit : Code Bool := .read fun s => !s.outputFails

/-- Leaves in the trace that the states' limit goes unnoticed. -/
def unnoticed (states : List ℕ) : Code Unit :=
  .act (fun _ => ()) id fun _ => states.map .unnoticed

/-- `_refresh_active_index_locked`; the answer is whether `restart_events` came back. -/
def refreshActiveIndex : Code Bool := do
  let states ← .read fun s => s.table.values
  let active ← activeOf states
  .act (fun _ => ()) (fun s => { s with activeByLine := s.linesOf active }) fun _ => []
  let installed ← .read Agent.installed
  if installed then .read fun s => !s.monitoringFails else pure true

/-- `_hit_limit_reached`; the answers here and below are whether the call came back. -/
def hitLimitReached (o : ℕ) : Code Bool := do
  let refreshed ← refreshActiveIndex
  if refreshed then do
    let probe ← probeOf o
    status o .hitLimitReached (intText ((probe.map (·.hitLimit)).getD 0) ++ py " hits")
    audit
  else do
    unnoticed [o]
    pure false

/-! ### The callback -/

/-- What a callback makes of the frame of its code object. -/
inductive Capture
  | missing
  | raised
  | captured (hit : RawHit)

/-- A line event, and what its callback is told by the clocks and the frames. -/
structure LineEvent where
  filename : PyString
  line : ℕ
  /-- `_hit_bucket.consume()` -/
  budget : Bool
  capture : Capture
  /-- `_callback_budget.record(duration)` -/
  exceeded : Bool

/-- `_matches_suffix` -/
def matchesSuffix (path suffix : PyString) : Bool :=
  path = suffix || (0x2F :: suffix).isSuffixOf path

/-- `_count_without_capture` -/
def countWithoutCapture (o : ℕ) (probe : PlacedProbe) : Code Unit := do
  let counted ← count o
  if counted.1 then do
    .act (fun _ => ())
      (fun s => { s with
        uncapturedCounters := s.uncapturedCounters.set probe.probeId
          ((s.uncapturedCounters.get? probe.probeId).getD 0 + 1) })
      fun _ => []
    if counted.2 then enqueueLifecycle .hitLimit [o] (py "hit limit reached") else pure ()
  else pure ()

/-- `_skip_over_budget`, after whether a hit was dropped. -/
def skipOverBudget : Bool → List ℕ → Code Unit
  | dropped, [] => if dropped then addDropped 1 else pure ()
  | dropped, o :: rest => do
    let probe ← probeOf o
    match probe with
    | none => skipOverBudget dropped rest
    | some probe =>
      if isPlainCounter probe.toPyProbe then do
        countWithoutCapture o probe
        skipOverBudget dropped rest
      else skipOverBudget true rest

/-- A candidate of a line event: one with a condition is reserved by the worker. -/
def candidateOf (o : ℕ) : Code (Option ProbeCandidate) := do
  let probe ← probeOf o
  match probe with
  | none => pure none
  | some probe =>
    if probe.condition.isSome || probe.conditionExpression.isSome then pure (some ⟨o, none⟩)
    else do
      let reservation ← reserve o
      pure (reservation.map fun r => ⟨o, some r⟩)

def candidatesOf : List ℕ → Code (List ProbeCandidate)
  | [] => pure []
  | o :: rest => do
    let candidate ← candidateOf o
    let others ← candidatesOf rest
    pure (candidate.toList ++ others)

/-- What follows the reservations. -/
def captureHit (captures : List ProbeCandidate) : Capture → Code Unit
  | .missing => do
    releaseAll captures
    enqueueLifecycle .error (captures.map ProbeCandidate.state) (py "instrumented frame not found")
  | .raised => do
    releaseAll captures
    enqueueLifecycle .error (captures.map ProbeCandidate.state) (py "monitoring callback failed safely")
  | .captured hit => do
    let queued ← putHit captures hit
    if queued then pure ()
    else do
      releaseAll captures
      addDropped captures.length

/-- The `try` of `_on_line`. -/
def lineHit (e : LineEvent) : Code Unit := do
  let stopping ← .read Agent.stopping
  let red ← .read Agent.red
  if stopping || red then pure ()
  else do
    let candidates ← .read fun s => (s.activeByLine.get? e.line).getD []
    let found ← .read fun s => candidates.filter fun o =>
      (s.states[o]?.map fun state => matchesSuffix e.filename state.probe.suffix).getD false
    let active ← activeOf found
    if active.isEmpty then pure ()
    else if !e.budget then skipOverBudget false active
    else do
      let captures ← candidatesOf active
      if captures.isEmpty then pure () else captureHit captures e.capture

/-- `_enter_red` -/
def enterRed (detail : PyString) : Code Unit := do
  let entered ← .act (fun s => !s.stopping && !s.red && s.installed)
    (fun s => if !s.stopping && !s.red && s.installed then { s with red := true } else s) fun _ => []
  if entered then do
    let states ← .read fun s => s.table.values
    let active ← activeOf states
    enqueueLifecycle .suspended active detail
  else pure ()

/-- `_on_line` -/
def onLine (e : LineEvent) : Code Unit := do
  lineHit e
  if e.exceeded then enterRed (py "callback budget exceeded") else pure ()

/-! ### The worker -/

/-- What the worker computes of a hit, and of a definition; `none` is an exception. -/
structure Pipeline where
  /-- `condition_matches` and the condition's expression -/
  condition : PyProbe → RawHit → Option Bool
  produce : PyProbe → RawHit → Option Produced
  /-- Whether `MetricAggregate.add` comes back. -/
  adds : List PyNumber → PyNumber → Bool
  /-- `Probe.__eq__` -/
  same : PlacedProbe → PlacedProbe → Bool

/-- A pipeline made of `processHit`, which does not raise. -/
def Runtime.pipeline {Other : Type} (runtime : Runtime Other) (config : SerializerLimits)
    (adds : List PyNumber → PyNumber → Bool) (same : PlacedProbe → PlacedProbe → Bool) : Pipeline where
  condition probe hit := some <|
    match processHit runtime config probe hit with
    | .nothing => false
    | _ => true
  produce probe hit := some (processHit runtime config probe hit)
  adds := adds
  same := same

variable (pipeline : Pipeline)

/-- What is recorded of a hit once it is committed. -/
def record (o : ℕ) (probe : PlacedProbe) : Produced → Code Bool
  | .counter =>
    .act (fun _ => true)
      (fun s => { s with
        counterAggregates := s.counterAggregates.set probe.probeId
          ((s.counterAggregates.get? probe.probeId).getD 0 + 1) })
      fun _ => []
  | .sample n =>
    .act
      (fun s => match s.metricAggregates.get? probe.probeId with
        | none => true
        | some aggregate => pipeline.adds aggregate.samples n)
      (fun s => { s with
        metricAggregates := s.metricAggregates.set probe.probeId <|
          match s.metricAggregates.get? probe.probeId with
          | none => ⟨1, [n]⟩
          | some ⟨count, samples⟩ =>
            ⟨count + 1, if pipeline.adds samples n then samples ++ [n] else samples⟩ })
      fun _ => []
  | .log message level => do
    appendEvent o (.produced probe.probeId (.log message level))
    audit
  | .snapshot captured watches stack => do
    appendEvent o (.produced probe.probeId (.snapshot captured watches stack))
    pure true
  | .nothing => pure true
  | .error _ => pure true

/-- `_probe_error_once` -/
def probeErrorOnce (o : ℕ) (detail : PyString) : Code Unit := do
  let repeated ← .act (fun s => decide ((s.states[o]?.bind ProbeState.lastError) = some detail))
    (fun s => s.setState o fun state => { state with lastError := some detail }) fun _ => []
  if repeated then pure () else status o .error detail

/-- A candidate without a reservation is reserved now. -/
def reserved (candidate : ProbeCandidate) : Code ProbeCandidate :=
  match candidate.reservation with
  | some r => pure ⟨candidate.state, some r⟩
  | none => do
    let reservation ← reserve candidate.state
    pure ⟨candidate.state, reservation⟩

/-- A hit that was produced is committed and recorded. -/
def commitHit (o r : ℕ) (probe : PlacedProbe) (event : Produced) : Code Bool := do
  let answer ← commit r
  if answer.1 then do
    let recorded ← record pipeline o probe event
    if recorded then (if answer.2 then hitLimitReached o else pure true)
    else do
      unnoticed (if answer.2 then [o] else [])
      pure false
  else pure true

/-- What `_process_hit` does with a candidate whose condition holds. -/
def processReserved (hit : RawHit) (probe : PlacedProbe) (candidate : ProbeCandidate) :
    Code (ProbeCandidate × Bool) := do
  let candidate ← reserved candidate
  match candidate.reservation with
  | none => pure (candidate, true)
  | some r =>
    match pipeline.produce probe.toPyProbe hit with
    | none => pure (candidate, false)
    | some (.error detail) => do
      release candidate
      probeErrorOnce candidate.state detail
      pure (candidate, true)
    | some event => do
      let committed ← commitHit pipeline candidate.state r probe event
      pure (candidate, committed)

/-- One turn of the loop of `_process_hit`: the candidate, and whether there was no exception. -/
def processCandidate (hit : RawHit) (candidate : ProbeCandidate) : Code (ProbeCandidate × Bool) := do
  let active ← isActive candidate.state
  let probe ← probeOf candidate.state
  match active, probe with
  | true, some probe =>
    match pipeline.condition probe.toPyProbe hit with
    | none => pure (candidate, false)
    | some false => do
      release candidate
      pure (candidate, true)
    | some true => processReserved pipeline hit probe candidate
  | _, _ => do
    release candidate
    pure (candidate, true)

/-- `_process_hit` -/
def processCandidates (hit : RawHit) : List ProbeCandidate → Code (List ProbeCandidate × Bool)
  | [] => pure ([], true)
  | candidate :: rest => do
    let processed ← processCandidate pipeline hit candidate
    if processed.2 then do
      let others ← processCandidates hit rest
      pure (processed.1 :: others.1, others.2)
    else pure (processed.1 :: rest, false)

def processLifecycleState (lifecycle : Lifecycle) (o : ℕ) : Code Bool := do
  let probe ← probeOf o
  match lifecycle.action with
  | .armed => do
    status o .armed
      (((probe.map (·.file)).getD []) ++ py ":" ++ intText ((probe.map (·.line)).getD 0))
    audit
  | .expired => do
    status o .expired lifecycle.detail
    audit
  | .suspended => do
    status o .suspended lifecycle.detail
    pure true
  | .rearmed => do
    status o .armed lifecycle.detail
    pure true
  | .hitLimit => hitLimitReached o
  | .error => do
    status o .error lifecycle.detail
    pure true

def processLifecycleStates (lifecycle : Lifecycle) : List ℕ → Code Bool
  | [] => pure true
  | o :: rest => do
    let done ← processLifecycleState lifecycle o
    if done then processLifecycleStates lifecycle rest
    else do
      unnoticed (if lifecycle.action = .hitLimit then rest else [])
      pure false

/-- `_process_lifecycle` -/
def processLifecycle (lifecycle : Lifecycle) : Code Bool := do
  let done ← processLifecycleStates lifecycle lifecycle.states
  if done && (lifecycle.action = .suspended || lifecycle.action = .rearmed) then audit else pure done

/-- What the worker does with an item of the queue. -/
def processItem : Item → Code Bool
  | .lifecycle lifecycle => processLifecycle lifecycle
  | .hit candidates hit => do
    let processed ← processCandidates pipeline hit candidates
    if processed.2 then pure true
    else do
      releaseAll processed.1
      let done ← processLifecycle
        ⟨.error, processed.1.map ProbeCandidate.state, py "background pipeline failed"⟩
      if done then audit else pure false

/-- `_drain_queue`, for a number of turns; an exception ends the worker. -/
def drainQueue : ℕ → Code Unit
  | 0 => pure ()
  | turns + 1 => do
    let item ← getNowait
    match item with
    | none => pure ()
    | some item => do
      let done ← processItem pipeline item
      if done then drainQueue turns else pure ()

/-- `_maybe_rearm`, when the cooldown is over. -/
def maybeRearm : Code Unit := do
  let rearmed ← .act (fun s => s.red && s.installed && !s.stopping && !s.monitoringFails)
    (fun s => if s.red && s.installed && !s.stopping && !s.monitoringFails then { s with red := false } else s)
    fun _ => []
  if rearmed then do
    let states ← .read fun s => s.table.values
    let active ← activeOf states
    enqueueLifecycle .rearmed active (py "callback budget cooldown ended")
  else pure ()

/-! ### Reconciling -/

def newState (probe : PlacedProbe) : Code ℕ :=
  .act (fun s => s.states.length)
    (fun s => { s with
      states := s.states ++ [{ probe }]
      table := s.table.set probe.probeId s.states.length })
    fun _ => []

/-- What `_reconcile` finds of the states: those to announce, and those that expired. -/
structure Reconciled where
  candidates : List ℕ := []
  expired : List ℕ := []
  recheck : List ℕ := []

/-- The loop over the states of the table. -/
def reconcileStates (parsed : JsMap PyString PlacedProbe) : List (PyString × ℕ) → Code Reconciled
  | [] => pure {}
  | (probeId, o) :: rest =>
    match parsed.get? probeId with
    | none => do
      deactivate o
      .act (fun _ => ()) (fun s => { s with table := s.table.delete probeId }) fun _ => []
      let others ← reconcileStates parsed rest
      pure { others with expired := o :: others.expired }
    | some incoming => do
      let state ← .read fun s => s.states[o]?
      if (state.map fun state => pipeline.same incoming state.probe).getD false then do
        let others ← reconcileStates parsed rest
        if (state.bind ProbeState.unresolved).isSome then
          pure { others with recheck := o :: others.recheck }
        else pure others
      else do
        deactivate o
        let replacement ← newState incoming
        let others ← reconcileStates parsed rest
        pure { others with candidates := replacement :: others.candidates }

/-- The loop over the definitions that the table lacks. -/
def addMissing : List PlacedProbe → Code (List ℕ)
  | [] => pure []
  | probe :: rest => do
    let known ← .read fun s => s.table.has probe.probeId
    if known then addMissing rest
    else do
      let state ← newState probe
      let others ← addMissing rest
      pure (state :: others)

/-- `_announce_targets`, after the armed ones; `resolve` is `_resolve_probe_target`. -/
def announceTargets (resolve : PlacedProbe → Option PyString) : List ℕ → List ℕ → Code Unit
  | armed, [] =>
    if armed.isEmpty then pure () else enqueueLifecycle .armed armed (py "probe target resolved")
  | armed, o :: rest => do
    let state ← .read fun s => s.states[o]?
    match state with
    | none => announceTargets resolve armed rest
    | some state => do
      .act (fun _ => ())
        (fun s => s.setState o fun state => { state with unresolved := resolve state.probe }) fun _ => []
      match resolve state.probe with
      | none => announceTargets resolve (armed ++ [o]) rest
      | some detail =>
        if some detail = state.unresolved then announceTargets resolve armed rest
        else do
          enqueueLifecycle .error [o] detail
          announceTargets resolve armed rest

def announceExpired (expired : List ℕ) : Code Unit :=
  if expired.isEmpty then pure ()
  else enqueueLifecycle .expired expired (py "omitted from broker active set")

/-- `_reconcile`, of the definitions that parse. -/
def reconcile (resolve : PlacedProbe → Option PyString) (parsed : JsMap PyString PlacedProbe) : Code Unit := do
  let entries ← .read fun s => s.table.entries
  let found ← reconcileStates pipeline parsed entries
  let added ← addMissing parsed.values
  let candidates := found.candidates ++ added
  let refreshed ← (if candidates.isEmpty && found.expired.isEmpty then pure true else refreshActiveIndex)
  if refreshed then do
    announceExpired found.expired
    announceTargets resolve [] (candidates ++ found.recheck)
  else pure ()

/-- The branch of `stop` where the worker does not come to its end in time. -/
def stopTimedOut (detail : PyString) : Code Unit := do
  .act (fun _ => ()) (fun s => { s with red := true }) fun _ => []
  let states ← .read fun s => s.table.values
  let active ← activeOf states
  enqueueLifecycle .error active detail

/-! ### Runs -/

/-- What begins: a callback, or a task of the worker. -/
inductive Begins : Seen → Code Unit → Prop
  | onLine (e : LineEvent) : Begins .begun (onLine e)
  | drainQueue (turns : ℕ) : Begins .begun (drainQueue pipeline turns)
  | maybeRearm : Begins .begun maybeRearm
  | reconcile (resolve : PlacedProbe → Option PyString) (parsed : JsMap PyString PlacedProbe) :
    Begins .begun (reconcile pipeline resolve parsed)
  | stop (detail : PyString) : Begins .begun (stopTimedOut detail)

/-- What goes on beside the programs: events are sent, the agent is started and
stopped, and what raises does not stay the same. -/
structure Moves (s s' : Agent) : Prop where
  states : s'.states = s.states
  reservations : s'.reservations = s.reservations
  table : s'.table = s.table
  activeByLine : s'.activeByLine = s.activeByLine
  rawQueue : s'.rawQueue = s.rawQueue
  queueSize : s'.queueSize = s.queueSize

abbrev AgentSystem := System Agent Seen Unit

/-- `LiveProbe.__init__`: an agent that has no probes yet. -/
def Agent.idle (queueSize : ℕ) : AgentSystem := ⟨{ queueSize }, [], []⟩

abbrev AgentRun : AgentSystem → AgentSystem → Prop := Run Moves (Begins pipeline)

end PythonAgent
