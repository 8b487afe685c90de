/-
LiveProbe/Ingest.lean

`BrokerState.ingest`: an agent of a managed runtime reports its status, its
capabilities and a batch of events.  The whole batch is checked before
anything is stored; the probes that are due are expired before that.

The check of a metric event multiplies doubles.  `roundToDouble` is the
rounding of IEEE 754 to the nearest double, ties to even.
-/
import LiveProbe.SourceMaps
import Mathlib.Data.Int.Log
import Mathlib.Data.Rat.Floor

open JsString

/-! ### Double multiplication -/

namespace JsNumber

/-- The nearest integer, ties to even. -/
def roundHalfEven (q : ℚ) : ℤ :=
  let f := ⌊q⌋
  if q - f < 1 / 2 then f else if 1 / 2 < q - f then f + 1 else if f % 2 = 0 then f else f + 1

/-- The nearest double; `none` when it is infinite. -/
def roundToDouble (q : ℚ) : Option ℚ :=
  if q = 0 then some 0
  else
    let ulp : ℚ := 2 ^ (max (Int.log 2 |q| - 52) (-1074))
    let x := roundHalfEven (q / ulp) * ulp
    if |x| < 2 ^ 1024 then some x else none

/-- `left < x * y` on doubles -/
def ltMul (left x y : ℚ) : Bool :=
  match roundToDouble (x * y) with
  | some product => left < product
  | none => 0 < x * y

/-- `left > x * y` on doubles -/
def gtMul (left x y : ℚ) : Bool :=
  match roundToDouble (x * y) with
  | some product => product < left
  | none => x * y < 0

end JsNumber

namespace Broker

/-! ### Checks -/

def invalidRequest (message : JsString) : BrokerError := .http 400 (js "invalid_request") message

/-- The name of an event's type. -/
def eventTypeName : EventBody → JsString
  | .snapshot .. => js "snapshot"
  | .log .. => js "log"
  | .counter _ => js "counter"
  | .metric .. => js "metric"
  | .status .. => js "status"

def probeTypeName : ProbeType → JsString
  | .snapshot => js "snapshot"
  | .log => js "log"
  | .counter => js "counter"
  | .metric => js "metric"

/-- A status event fits every probe, another only a probe of its type. -/
def matchesType (event : ProbeEvent) (probe : ProbeDefinition) : Bool :=
  event.body.probeType.all fun type => type = probe.type

/-- Whether a metric's sum is out of the bounds its count, min and max give. -/
def inconsistentMetric : EventBody → Bool
  | .metric count sum min max _ => JsNumber.ltMul sum min count || JsNumber.gtMul sum max count
  | _ => false

/-- The check of one event against the probe it names. -/
def checkEvent (input : IngestInput) (scope : ResourceScope) (stored : Option StoredProbe)
    (event : ProbeEvent) : Except BrokerError Unit :=
  match stored.filter fun p => p.scope = scope with
  | none => .error (invalidRequest (js "event references unknown probe " ++ event.probeId))
  | some stored =>
    if stored.probe.serviceId ≠ input.serviceId then
      .error (invalidRequest (js "probe " ++ event.probeId ++ js " does not belong to service " ++
        input.serviceId))
    else if !matchesType event stored.probe then
      .error (invalidRequest (js "event type " ++ eventTypeName event.body ++ js " does not match " ++
        probeTypeName stored.probe.type ++ js " probe"))
    else if inconsistentMetric event.body then
      .error (invalidRequest (js "metric sum is inconsistent with count, min, and max"))
    else .ok ()

/-- The first loop of `ingest`: the first event that fails decides. -/
def checkEvents (input : IngestInput) (scope : ResourceScope) (s : BrokerState) :
    List ProbeEvent → Except BrokerError Unit
  | [] => .ok ()
  | event :: rest =>
    match checkEvent input scope (s.probes.get? event.probeId) event with
    | .error e => .error e
    | .ok () => checkEvents input scope s rest

def sdkName : AgentSdk → JsString
  | .node => js "node"
  | .python => js "python"
  | .jvm => js "jvm"

/-- The agent a report is filed under. -/
def reportingAgent (input : IngestInput) : JsString :=
  input.agentId.getD (js "legacy:" ++ sdkName input.sdk ++ js ":" ++ input.commitSha)

end Broker

namespace BrokerState

open Broker

/-! ### Storing -/

/-- The status an event of `ingest` leaves, when it is a status event. -/
def ingestedStatus (s : BrokerState) (event : ProbeEvent) : Option ProbeStatus :=
  match event.body with
  | .status status detail _ =>
    some { status, updatedAt := event.ts, detail
           armedAt := if status = .armed then some event.ts
             else (s.statuses.get? event.probeId).bind (·.armedAt) }
  | _ => none

/-- The body of the second loop of `ingest`. -/
def ingestEvent (cfg : Config) (s : BrokerState) (event : ProbeEvent) : BrokerState :=
  let s := s.appendEvent cfg event
  match s.ingestedStatus event with
  | none => s
  | some status => { s with statuses := s.statuses.set event.probeId status }

/-- What `ingest` records of the agent before the events. -/
def ingestAgent (now : ℕ) (input : IngestInput) (scope : ResourceScope) (s : BrokerState) :
    BrokerState :=
  let s := s.reportAgentCapabilities now scope input.serviceId (reportingAgent input)
    (input.capabilities.getD [])
  s.touchService now input.serviceId (some input.sdk) (some input.agentStatus)
    (some input.commitSha) input.commitSource scope
    (some (s.activeCapabilities now scope input.serviceId))

def ingest (cfg : Config) (now : ℕ) (input : IngestInput) (scope : ResourceScope)
    (s : BrokerState) : BrokerState × Except BrokerError ℕ :=
  let s := s.expireDueProbes cfg now
  match checkEvents input scope s input.events with
  | .error e => (s, .error e)
  | .ok () =>
    (input.events.foldl (ingestEvent cfg) (s.ingestAgent now input scope), .ok input.events.length)

end BrokerState
