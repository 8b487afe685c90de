/-
LiveProbe/Broker.lean

The broker as a transition system: what a client may ask for (`Request`), what
it is answered (`Response`), and the one function all of them go through.

A request acts in the scope of its credentials; the sweep of the TTL timer
acts in none.  `Request.Valid` says that the request has passed the schemas of
its route, so that its texts are trimmed and its identifiers in lower case.
-/
import LiveProbe.Snapshot

open JsString

inductive Request
  | createProbe (draws : ℕ → JsString) (input : CreateProbeInput)
  | deleteProbe (id : JsString)
  | listProbes (serviceId : Option JsString)
  | getProbe (id : JsString)
  | getEvents (id : JsString)
  | getStatus (id : JsString)
  | pollProbes (serviceId : JsString) (since : ℤ) (commitSha : Option JsString)
  | sourceMapStatus (serviceId commitSha uploaderId : JsString)
  | uploadSourceMap (input : BrokerState.SourceMapUpload)
  | completeSourceMaps (serviceId commitSha uploaderId : JsString)
  | getSourceMapSet (serviceId commitSha : JsString)
  | ingest (input : IngestInput)
  | registerNativeAgent (input : NativeAgentRegistration)
  | replaceNativeInstances (agentId : JsString) (instances : List NativeInstance)
      (allowedServiceIds : List JsString)
  | nativeAssignments (agentId : JsString) (since : ℤ) (allowedServiceIds : List JsString)
  | ingestNative (input : NativeIngestEnvelope)
  | listServices

inductive Response
  | created (r : Except BrokerError ProbeDefinition)
  | deleted (found : Bool)
  | probes (l : List (ProbeDefinition × Option ProbeStatus))
  | probe (p : Option ProbeDefinition)
  | events (l : List ProbeEvent)
  | status (p : Option ProbeStatus)
  | poll (r : Except BrokerError PollResponse)
  | sourceMapStatus (r : BrokerState.SourceMapStatus)
  | done (r : Except BrokerError Unit)
  | sourceMapSet (r : Option SourceMapSet)
  | accepted (r : Except BrokerError ℕ)
  | registered (r : Except BrokerError NativeAgentRecord)
  | assignments (r : Except BrokerError NativeAssignments)
  | services (l : List ServiceRecord)

/-- Whether the method returned. -/
def Response.returned : Response → Bool
  | created (.error _) | poll (.error _) | done (.error _) | accepted (.error _)
  | registered (.error _) | assignments (.error _) => false
  | _ => true

/-- The requests that go through the mutation queue and are persisted. -/
def Request.durable : Request → Bool
  | createProbe .. | deleteProbe .. | uploadSourceMap .. | completeSourceMaps .. | ingest ..
  | registerNativeAgent .. | replaceNativeInstances .. | ingestNative .. => true
  | _ => false

/-- What the schemas of the routes let through. -/
def Request.Valid : Request → Prop
  | createProbe _ input => Protocol.createProbeInputSchema input = some input
  | deleteProbe id | getProbe id | getEvents id | getStatus id => Protocol.probeIdSchema id = some id
  | listProbes serviceId => Schema.optional Protocol.serviceIdSchema serviceId = some serviceId
  | pollProbes serviceId _ commitSha =>
    Protocol.serviceIdSchema serviceId = some serviceId ∧
      Schema.optional Protocol.sourceCommitSchema commitSha = some commitSha
  | sourceMapStatus serviceId commitSha uploaderId
  | completeSourceMaps serviceId commitSha uploaderId =>
    Protocol.serviceIdSchema serviceId = some serviceId ∧
      Protocol.sourceCommitSchema commitSha = some commitSha ∧
      Protocol.agentIdSchema uploaderId = some uploaderId
  | uploadSourceMap input =>
    Protocol.serviceIdSchema input.serviceId = some input.serviceId ∧
      Protocol.sourceCommitSchema input.commitSha = some input.commitSha ∧
      Protocol.agentIdSchema input.uploaderId = some input.uploaderId ∧
      Broker.sourceMapPathSchema input.mapPath = some input.mapPath
  | getSourceMapSet serviceId commitSha =>
    Protocol.serviceIdSchema serviceId = some serviceId ∧
      Protocol.sourceCommitSchema commitSha = some commitSha
  | ingest input => Protocol.ingestSchema input = some input
  | registerNativeAgent input => Protocol.nativeAgentRegistrationSchema input = some input
  | replaceNativeInstances agentId instances _ =>
    Protocol.agentIdSchema agentId = some agentId ∧
      Protocol.nativeInstanceSetSchema instances = some instances
  | nativeAssignments agentId _ _ => Protocol.agentIdSchema agentId = some agentId
  | ingestNative input => Protocol.nativeIngestEnvelopeSchema input = some input
  | listServices => True

namespace BrokerState

/-- A method's result as a response. -/
def answer {α : Type} (f : α → Response) (r : BrokerState × α) : BrokerState × Response :=
  (r.1, f r.2)

/-- The answer to a request, and the state it leaves. -/
def handle (cfg : Config) (now : ℕ) (scope : ResourceScope) (r : Request) (s : BrokerState) :
    BrokerState × Response :=
  match r with
  | .createProbe draws input => answer .created (s.createProbe cfg now draws input scope)
  | .deleteProbe id => answer .deleted (s.deleteProbe now id scope)
  | .listProbes serviceId => answer .probes (s.listProbes cfg now serviceId scope)
  | .getProbe id => answer .probe (s.getProbe cfg now id scope)
  | .getEvents id => answer .events (s.getEvents cfg now id scope)
  | .getStatus id => answer .status (s.getStatus cfg now id scope)
  | .pollProbes serviceId since commitSha =>
    answer .poll (s.pollProbes cfg now serviceId since commitSha scope)
  | .sourceMapStatus serviceId commitSha uploaderId =>
    answer .sourceMapStatus (s.sourceMapStatus now serviceId commitSha uploaderId scope)
  | .uploadSourceMap input => answer .done (s.uploadSourceMap cfg now input scope)
  | .completeSourceMaps serviceId commitSha uploaderId =>
    answer .done (s.completeSourceMaps cfg now serviceId commitSha uploaderId scope)
  | .getSourceMapSet serviceId commitSha =>
    answer .sourceMapSet (s, s.getSourceMapSet serviceId commitSha scope)
  | .ingest input => answer .accepted (s.ingest cfg now input scope)
  | .registerNativeAgent input => answer .registered (s.registerNativeAgent now input scope)
  | .replaceNativeInstances agentId instances allowedServiceIds =>
    answer .accepted (s.replaceNativeInstances now agentId instances scope allowedServiceIds)
  | .nativeAssignments agentId since allowedServiceIds =>
    answer .assignments (s.nativeAssignments cfg now agentId since scope allowedServiceIds)
  | .ingestNative input => answer .accepted (s.ingestNative cfg now input scope)
  | .listServices => answer .services (s.listServices cfg now scope)

end BrokerState

/-! ### A small instance

A configuration and requests for concrete runs.  They use no expression and no
source map, so nothing is asked of the packages outside. -/

namespace Sample

/-- Default capacity, no packages. -/
def config : Config where
  ringCapacity := 500
  ringCapacity_pos := by decide
  jsep _ := .error []
  localeLe := Broker.codeUnitLe
  validSourceMap _ _ := true
  resolveSourceLocation _ _ _ := none

/-- `DEFAULT_RESOURCE_SCOPE` -/
def scope : ResourceScope := ⟨js "internal", js "default", js "default"⟩

/-- A counter probe on a line of `app.js`. -/
def counter (line : ℕ) : CreateProbeInput where
  serviceId := js "api"
  sourceCommit := none
  file := js "app.js"
  line
  condition := none
  conditionExpression := none
  ttlSeconds := 1800
  createdBy := js "user"
  hitLimit := 10000
  body := .counter

theorem counter_valid : ∀ line ∈ [1, 2],
    Protocol.createProbeInputSchema (counter line) = some (counter line) := by
  decide

/-- A generator that draws the same identifier every time. -/
def draw (last : Char) (_ : ℕ) : JsString :=
  js "prb_0000000000000000000000000" ++ [unit last]

end Sample
