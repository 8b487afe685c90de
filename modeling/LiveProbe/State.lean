/-
LiveProbe/State.lean

The in-memory state of the broker: the maps of `BrokerState`, the composite
keys they are indexed by, and the private methods the operations share.

A composite key is the JSON text of the scope followed by NUL-separated parts.
The scope's text holds no NUL, so the scope of a key is always determined
(`scopeKey_append_inj`); the parts after it are determined only where they hold
no NUL themselves.

A method is a function of the state.  It reads the clock at most once, as the
argument `now`; a method that throws returns the state it leaves behind.
-/
import LiveProbe.Events
import LiveProbe.JsMap
import LiveProbe.Json

open JsString

/-! ### Records -/

/-- `StoredProbe` -/
structure StoredProbe where
  scope : ResourceScope
  probe : ProbeDefinition
  expiresAt : ℕ
  expired : Bool
  deriving DecidableEq, Repr

/-- `ScopedServiceVersion` -/
structure ScopedServiceVersion where
  scope : ResourceScope
  serviceId : JsString
  version : ℕ
  deriving DecidableEq, Repr

inductive RuntimeBackend
  | managedRuntime | nativeEbpf
  deriving DecidableEq, Repr

inductive RuntimeLanguage
  | node | python | jvm | rust | cpp
  deriving DecidableEq, Repr

/-- `ScopedServiceRecord` -/
structure ServiceRecord where
  scope : ResourceScope
  serviceId : JsString
  lastSeen : JsString
  sdk : Option AgentSdk := none
  commitSha : Option JsString := none
  commitSource : Option CommitSource := none
  capabilities : Option (List JsString) := none
  agentStatus : Option AgentStatus := none
  backend : Option RuntimeBackend := none
  language : Option RuntimeLanguage := none
  instanceCount : Option ℕ := none
  buildIds : Option (List JsString) := none
  nativeLimitations : Option (List JsString) := none
  deriving DecidableEq, Repr

structure AgentCapabilityReport where
  lastSeen : ℕ
  capabilities : List JsString
  deriving DecidableEq, Repr

/-- `StoredSourceMap`; `map` is a JSON object. -/
structure StoredSourceMap where
  mapPath : JsString
  map : List (JsString × Json)
  uploadedAt : JsString

structure RuntimeLocation where
  runtimeLocation : JsString
  runtimeLine : ℕ
  runtimeColumn : ℕ
  deriving DecidableEq, Repr

/-- `SourceMapSet` -/
structure SourceMapSet where
  scope : ResourceScope
  serviceId : JsString
  commitSha : JsString
  complete : Bool
  updatedAt : JsString
  maps : JsMap JsString StoredSourceMap

structure SourceMapLease where
  uploaderId : JsString
  expiresAt : ℕ
  deriving DecidableEq, Repr

/-- `NativeAgentRecord` -/
structure NativeAgentRecord extends NativeAgentRegistration where
  scope : ResourceScope
  lastSeen : JsString
  deriving DecidableEq, Repr

/-- `NativeInstanceRecord` -/
structure NativeInstanceRecord extends NativeInstance where
  scope : ResourceScope
  agentId : JsString
  deriving DecidableEq, Repr

structure NativeIngestHealth where
  staleEventsDropped : ℕ
  rejectedBatches : ℕ
  lastRejectionAt : Option JsString := none
  lastRejectionCode : Option JsString := none
  deriving DecidableEq, Repr

/-- What a method throws: a `BrokerHttpError`, a `ZodError` or another error. -/
inductive BrokerError
  | http (statusCode : ℕ) (code message : JsString)
  | invalid
  | failure (message : JsString)
  deriving DecidableEq, Repr

/-- The maps of `BrokerState`, activity listeners aside. -/
structure BrokerState where
  probes : JsMap JsString StoredProbe := ∅
  serviceVersions : JsMap JsString ScopedServiceVersion := ∅
  events : JsMap JsString (List ProbeEvent) := ∅
  services : JsMap JsString ServiceRecord := ∅
  agentCapabilityReports : JsMap JsString (JsMap JsString AgentCapabilityReport) := ∅
  statuses : JsMap JsString ProbeStatus := ∅
  sourceMapSets : JsMap JsString SourceMapSet := ∅
  sourceMapLeases : JsMap JsString SourceMapLease := ∅
  nativeAgents : JsMap JsString NativeAgentRecord := ∅
  nativeInstances : JsMap JsString NativeInstanceRecord := ∅
  nativeStatuses : JsMap JsString ProbeStatus := ∅
  recentlyRemovedProbes : JsMap JsString ℕ := ∅
  nativeIngestHealth : JsMap JsString NativeIngestHealth := ∅
  nativeAssignmentVersions : JsMap JsString ℕ := ∅

instance : Inhabited BrokerState := ⟨{}⟩

/-- What a broker is configured with, and the functions it takes from outside
the repository: the parser jsep, the locale's string order and the source-map
package. -/
structure Config where
  /-- How many events a probe's ring keeps. -/
  ringCapacity : ℕ
  /-- The constructor refuses other capacities. -/
  ringCapacity_pos : 0 < ringCapacity
  jsep : JsString → Except JsString JsepNode
  /-- `left.localeCompare(right) <= 0` -/
  localeLe : JsString → JsString → Bool
  /-- `validateSourceMap` returns. -/
  validSourceMap : JsString → List (JsString × Json) → Bool
  resolveSourceLocation : List StoredSourceMap → JsString → ℕ → Option RuntimeLocation

/-! ### Keys -/

/-- `resourceScopeKey`: `JSON.stringify` of the three identifiers. -/
def resourceScopeKey (scope : ResourceScope) : JsString :=
  0x5B :: (quote scope.tenantId ++ 0x2C :: (quote scope.projectId ++
    0x2C :: (quote scope.environmentId ++ [0x5D])))

def serviceKey (scope : ResourceScope) (serviceId : JsString) : JsString :=
  resourceScopeKey scope ++ nul :: serviceId

def sourceMapKey (scope : ResourceScope) (serviceId commitSha : JsString) : JsString :=
  serviceKey scope serviceId ++ nul :: commitSha

def nativeAgentKey (scope : ResourceScope) (agentId : JsString) : JsString :=
  resourceScopeKey scope ++ nul :: agentId

def nativeInstanceKey (scope : ResourceScope) (agentId instanceId : JsString) : JsString :=
  nativeAgentKey scope agentId ++ nul :: instanceId

def nativeStatusKey (scope : ResourceScope) (probeId : JsString) (probeVersion : ℕ)
    (agentId instanceId buildId : JsString) : JsString :=
  resourceScopeKey scope ++ nul :: (probeId ++ nul :: (decimal probeVersion ++
    nul :: (agentId ++ nul :: (instanceId ++ nul :: buildId))))

theorem resourceScopeKey_injective : Function.Injective resourceScopeKey := fun a b h => by
  obtain ⟨ta, pa, ea⟩ := a
  obtain ⟨tb, pb, eb⟩ := b
  obtain ⟨ht, h⟩ := quote_append_inj (List.cons.inj h).2
  obtain ⟨hp, h⟩ := quote_append_inj (List.cons.inj h).2
  obtain ⟨he, -⟩ := quote_append_inj (List.cons.inj h).2
  exact congr (congr (congrArg _ ht) hp) he

theorem nul_notMem_resourceScopeKey (scope : ResourceScope) : nul ∉ resourceScopeKey scope := by
  simp only [resourceScopeKey, List.mem_cons, List.mem_append, List.not_mem_nil, or_false, not_or]
  exact ⟨by decide, nul_notMem_quote _, by decide, nul_notMem_quote _, by decide,
    nul_notMem_quote _, by decide⟩

/-- A key determines its scope. -/
theorem scopeKey_append_inj {a b : ResourceScope} {r r' : JsString}
    (h : resourceScopeKey a ++ nul :: r = resourceScopeKey b ++ nul :: r') : a = b ∧ r = r' := by
  obtain ⟨hk, hr⟩ := append_nul_inj (nul_notMem_resourceScopeKey a)
    (nul_notMem_resourceScopeKey b) h
  exact ⟨resourceScopeKey_injective hk, hr⟩

theorem serviceKey_inj {a b : ResourceScope} {x y : JsString} :
    serviceKey a x = serviceKey b y ↔ a = b ∧ x = y :=
  ⟨scopeKey_append_inj, fun ⟨ha, hx⟩ => by rw [ha, hx]⟩

theorem nativeAgentKey_inj {a b : ResourceScope} {x y : JsString} :
    nativeAgentKey a x = nativeAgentKey b y ↔ a = b ∧ x = y :=
  ⟨scopeKey_append_inj, fun ⟨ha, hx⟩ => by rw [ha, hx]⟩

/-- A key of an instance whose identifiers hold no NUL is the key of no other. -/
theorem nativeInstanceKey_plain {a b : ResourceScope} {x y x' y' : JsString}
    (hx : nul ∉ x) (hy : nul ∉ y) (h : nativeInstanceKey a x' y' = nativeInstanceKey b x y) :
    a = b ∧ x' = x ∧ y' = y := by
  simp only [nativeInstanceKey, nativeAgentKey, List.append_assoc, List.cons_append] at h
  obtain ⟨hs, h⟩ := scopeKey_append_inj h
  have hc := congrArg (List.count nul) h
  simp only [List.count_append, List.count_cons_self, List.count_eq_zero_of_not_mem hx,
    List.count_eq_zero_of_not_mem hy] at hc
  have hx' : nul ∉ x' := List.count_eq_zero.mp (by omega)
  exact ⟨hs, append_nul_inj hx' hx h⟩

/-- A key of source maps determines its parts when the commits hold no NUL. -/
theorem sourceMapKey_inj {a b : ResourceScope} {x y c d : JsString} (hc : nul ∉ c) (hd : nul ∉ d) :
    sourceMapKey a x c = sourceMapKey b y d ↔ (a = b ∧ x = y) ∧ c = d := by
  constructor
  · intro h
    obtain ⟨hs, hcd⟩ := append_nul_inj_right hc hd h
    exact ⟨serviceKey_inj.mp hs, hcd⟩
  · rintro ⟨⟨rfl, rfl⟩, rfl⟩
    rfl

/-- A key without NUL in its parts is split into them. -/
theorem splitNul_nativeStatusKey {scope : ResourceScope} {probeId agentId instanceId buildId : JsString}
    (version : ℕ) (hp : nul ∉ probeId) (ha : nul ∉ agentId) (hi : nul ∉ instanceId)
    (hb : nul ∉ buildId) :
    splitNul (nativeStatusKey scope probeId version agentId instanceId buildId) =
      [resourceScopeKey scope, probeId, decimal version, agentId, instanceId, buildId] := by
  rw [nativeStatusKey, splitNul_append (nul_notMem_resourceScopeKey scope), splitNul_append hp,
    splitNul_append (nul_notMem_decimal version), splitNul_append ha, splitNul_append hi,
    splitNul_of_notMem hb]

theorem splitNul_nativeAgentKey {scope : ResourceScope} {agentId : JsString} (ha : nul ∉ agentId) :
    splitNul (nativeAgentKey scope agentId) = [resourceScopeKey scope, agentId] := by
  rw [nativeAgentKey, splitNul_append (nul_notMem_resourceScopeKey scope), splitNul_of_notMem ha]

/-! ### Constants -/

namespace Broker

def activeAgentWindowMs : ℕ := 45000
def removedProbeGraceMs : ℕ := 600000
def sourceMapLeaseMs : ℕ := 120000
def sourceMapCommitsPerService : ℕ := 5
def nativeMaxCaptureSlots : ℕ := 8

def knownAgentCapabilities : List JsString :=
  [js "log-levels-v1", js "expression-ast-v1", js "frame-locals-v1"]

/-- The order of `Array.prototype.sort` on strings: by code units. -/
def codeUnitLe : JsString → JsString → Bool
  | [], _ => true
  | _ :: _, [] => false
  | a :: s, b :: t => a < b || (a = b && codeUnitLe s t)

/-- `[...strings].sort()` -/
def sortStrings (l : List JsString) : List JsString := l.mergeSort codeUnitLe

/-- `Date.parse(left) < Date.parse(right)`, false when either is not a date. -/
def dateLt (left right : JsString) : Bool :=
  match IsoDate.dateParse left, IsoDate.dateParse right with
  | some l, some r => l < r
  | _, _ => false

/-- `Date.parse(left) >= Date.parse(right)`, false when either is not a date. -/
def dateGe (left right : JsString) : Bool :=
  match IsoDate.dateParse left, IsoDate.dateParse right with
  | some l, some r => r ≤ l
  | _, _ => false

/-- `nativeStatusEndsAssignment` -/
def nativeStatusEndsAssignment : ProbeStatusName → Bool
  | .hitLimitReached | .suspended | .expired => true
  | _ => false

/-- `normalizeAgentCapabilities` -/
def normalizeAgentCapabilities (capabilities : List JsString) : List JsString :=
  let unique := capabilities.eraseDups
  knownAgentCapabilities.filter (fun c => c ∈ unique) ++
    sortStrings (unique.filter fun c => c ∉ knownAgentCapabilities)

end Broker

/-! ### Shared methods -/

namespace BrokerState

open Broker

/-- The version `pollProbes` reports for a service. -/
def serviceVersion (s : BrokerState) (scope : ResourceScope) (serviceId : JsString) : ℕ :=
  ((s.serviceVersions.get? (serviceKey scope serviceId)).map (·.version)).getD 0

/-- `bumpNativeAssignmentVersion`, on the map of versions. -/
def bumpNativeAssignmentVersion (scope : ResourceScope) (versions : JsMap JsString ℕ)
    (agentId : JsString) : JsMap JsString ℕ :=
  versions.set (nativeAgentKey scope agentId)
    ((versions.get? (nativeAgentKey scope agentId)).getD 0 + 1)

/-- The agents whose instances run a service, once for each instance. -/
def serviceAgents (s : BrokerState) (scope : ResourceScope) (serviceId : JsString) :
    List JsString :=
  (s.nativeInstances.values.filter fun i => i.scope = scope && i.serviceId = serviceId).map
    (·.agentId)

/-- `incrementServiceVersion` -/
def incrementServiceVersion (serviceId : JsString) (scope : ResourceScope) (s : BrokerState) :
    BrokerState :=
  { s with
    serviceVersions := s.serviceVersions.set (serviceKey scope serviceId)
      { scope, serviceId, version := s.serviceVersion scope serviceId + 1 }
    nativeAssignmentVersions :=
      (s.serviceAgents scope serviceId).foldl (bumpNativeAssignmentVersion scope)
        s.nativeAssignmentVersions }

/-- A ring after an event is pushed: the oldest events beyond the capacity go. -/
def pushEvent (cfg : Config) (ring : List ProbeEvent) (event : ProbeEvent) : List ProbeEvent :=
  (ring ++ [event]).drop ((ring ++ [event]).length - cfg.ringCapacity)

/-- `appendEvent` -/
def appendEvent (cfg : Config) (event : ProbeEvent) (s : BrokerState) : BrokerState :=
  { s with
    events := s.events.set event.probeId
      (pushEvent cfg ((s.events.get? event.probeId).getD []) event) }

/-- `touchService` -/
def touchService (now : ℕ) (serviceId : JsString) (sdk : Option AgentSdk)
    (agentStatus : Option AgentStatus) (commitSha : Option JsString)
    (commitSource : Option CommitSource) (scope : ResourceScope)
    (capabilities : Option (List JsString)) (s : BrokerState) : BrokerState :=
  let previous := s.services.get? (serviceKey scope serviceId)
  { s with
    services := s.services.set (serviceKey scope serviceId)
      { scope, serviceId, lastSeen := IsoDate.toISOString now
        sdk := sdk <|> previous.bind (·.sdk)
        agentStatus := agentStatus <|> previous.bind (·.agentStatus)
        commitSha := commitSha <|> previous.bind (·.commitSha)
        commitSource := commitSource <|> previous.bind (·.commitSource)
        capabilities := capabilities <|> previous.bind (·.capabilities) } }

/-- The reports `activeCapabilityIntersection` leaves: those not older than the
active window. -/
def activeReports (now : ℕ) (reports : JsMap JsString AgentCapabilityReport) :
    JsMap JsString AgentCapabilityReport :=
  reports.filter fun _ r => now ≤ r.lastSeen + activeAgentWindowMs

/-- `activeCapabilityIntersection` -/
def activeCapabilityIntersection (now : ℕ) (reports : JsMap JsString AgentCapabilityReport) :
    List JsString :=
  match (activeReports now reports).values with
  | [] => []
  | first :: rest => first.capabilities.filter fun c => (first :: rest).all fun r => c ∈ r.capabilities

/-- `reportAgentCapabilities`: the state after the report. -/
def reportAgentCapabilities (now : ℕ) (scope : ResourceScope) (serviceId agentId : JsString)
    (capabilities : List JsString) (s : BrokerState) : BrokerState :=
  let reports := ((s.agentCapabilityReports.get? (serviceKey scope serviceId)).getD ∅).set agentId
    { lastSeen := now, capabilities := normalizeAgentCapabilities capabilities }
  { s with
    agentCapabilityReports :=
      s.agentCapabilityReports.set (serviceKey scope serviceId) (activeReports now reports) }

/-- The capabilities of a service: the intersection over its live reports. -/
def activeCapabilities (now : ℕ) (scope : ResourceScope) (serviceId : JsString)
    (s : BrokerState) : List JsString :=
  activeCapabilityIntersection now
    ((s.agentCapabilityReports.get? (serviceKey scope serviceId)).getD ∅)

/-- `refreshServiceCapabilities` -/
def refreshServiceCapabilities (now : ℕ) (scope : ResourceScope) (serviceId : JsString)
    (s : BrokerState) : BrokerState :=
  match s.services.get? (serviceKey scope serviceId) with
  | none => s
  | some service =>
    { s with
      services := s.services.set (serviceKey scope serviceId)
        { service with capabilities := some (s.activeCapabilities now scope serviceId) }
      agentCapabilityReports :=
        match s.agentCapabilityReports.get? (serviceKey scope serviceId) with
        | none => s.agentCapabilityReports
        | some reports =>
          s.agentCapabilityReports.set (serviceKey scope serviceId) (activeReports now reports) }

/-! ### Expiry -/

end BrokerState

/-- Whether a probe is to be expired at a clock value. -/
def StoredProbe.due (now : ℕ) (p : StoredProbe) : Bool := !p.expired && decide (p.expiresAt ≤ now)

/-- `stored.expired = true` -/
def StoredProbe.markExpired (p : StoredProbe) : StoredProbe := { p with expired := true }

/-- The entry of a probe after the expiry at a clock value. -/
def StoredProbe.expire (now : ℕ) (p : StoredProbe) : StoredProbe :=
  if p.due now then p.markExpired else p

namespace BrokerState

/-- The status an expiring probe gets. -/
def expiredStatus (now : ℕ) (s : BrokerState) (id : JsString) : ProbeStatus :=
  { status := .expired, updatedAt := IsoDate.toISOString now,
    armedAt := (s.statuses.get? id).bind (·.armedAt) }

/-- The event an expiring probe's ring gets. -/
def expiredEvent (now : ℕ) (id : JsString) : ProbeEvent :=
  { probeId := id, probeVersion := none, ts := IsoDate.toISOString now,
    body := .status .expired none {} }

/-- The body of the loop of `expireDueProbes`. -/
def expireProbe (cfg : Config) (now : ℕ) (s : BrokerState) (e : JsString × StoredProbe) :
    BrokerState :=
  if e.2.due now then
    let s := { s with probes := s.probes.set e.1 e.2.markExpired }
    let s := s.incrementServiceVersion e.2.probe.serviceId e.2.scope
    let s := { s with statuses := s.statuses.set e.2.probe.id (s.expiredStatus now e.2.probe.id) }
    s.appendEvent cfg (expiredEvent now e.2.probe.id)
  else s

/-- `expireDueProbes`: the state it leaves. -/
def expireDueProbes (cfg : Config) (now : ℕ) (s : BrokerState) : BrokerState :=
  s.probes.entries.foldl (expireProbe cfg now) s

/-- `expireDueProbes`: the number it returns. -/
def dueCount (now : ℕ) (s : BrokerState) : ℕ := (s.probes.values.filter (·.due now)).length

end BrokerState
