/-
LiveProbe/SourceMaps.lean

The source-map operations of `BrokerState`.  An agent first claims a commit
(`sourceMapStatus` leases it for two minutes), then uploads its maps and
completes the set; a complete set is what `pollProbes` resolves locations with.

Uploading and completing both renew the lease they require, so the state a
rejected request leaves is the one it found (`assertSourceMapUploader`).
-/
import LiveProbe.Probes

open JsString

namespace BrokerState

open Broker

/-! ### Leases -/

/-- Whether a lease is void at a clock value or held by the uploader. -/
def claimable (now : ℕ) (uploaderId : JsString) : Option SourceMapLease → Bool
  | none => true
  | some lease => decide (lease.expiresAt ≤ now) || lease.uploaderId = uploaderId

/-- Whether the uploader holds a live lease. -/
def holdsLease (now : ℕ) (uploaderId : JsString) : Option SourceMapLease → Bool
  | none => false
  | some lease => decide (now < lease.expiresAt) && lease.uploaderId = uploaderId

/-- Grant or renew the lease of a key. -/
def grantLease (now : ℕ) (key uploaderId : JsString) (s : BrokerState) : BrokerState :=
  { s with
    sourceMapLeases := s.sourceMapLeases.set key { uploaderId, expiresAt := now + sourceMapLeaseMs } }

def notClaimed : BrokerError :=
  .http 409 (js "source_map_upload_not_claimed")
    (js "this agent is not the active source-map uploader")

/-- `assertSourceMapUploader` -/
def assertSourceMapUploader (now : ℕ) (serviceId commitSha uploaderId : JsString)
    (scope : ResourceScope) (s : BrokerState) : Except BrokerError BrokerState :=
  let key := sourceMapKey scope serviceId commitSha
  if holdsLease now uploaderId (s.sourceMapLeases.get? key) then .ok (s.grantLease now key uploaderId)
  else .error notClaimed

/-! ### Operations -/

structure SourceMapStatus where
  isUploader : Bool
  isComplete : Bool
  deriving DecidableEq, Repr

/-- The maps of an incomplete set are dropped when another uploader takes over. -/
def clearForeignMaps (now : ℕ) (key uploaderId : JsString) (s : BrokerState) : BrokerState :=
  match s.sourceMapSets.get? key with
  | none => s
  | some set =>
    if (s.sourceMapLeases.get? key).any (fun lease => lease.uploaderId = uploaderId) then s
    else
      { s with
        sourceMapSets :=
          s.sourceMapSets.set key { set with maps := ∅, updatedAt := IsoDate.toISOString now } }

def sourceMapStatus (now : ℕ) (serviceId commitSha uploaderId : JsString) (scope : ResourceScope)
    (s : BrokerState) : BrokerState × SourceMapStatus :=
  let key := sourceMapKey scope serviceId commitSha
  if (s.sourceMapSets.get? key).any (·.complete) then
    (s, { isUploader := false, isComplete := true })
  else if claimable now uploaderId (s.sourceMapLeases.get? key) then
    ((s.clearForeignMaps now key uploaderId).grantLease now key uploaderId,
      { isUploader := true, isComplete := false })
  else (s, { isUploader := false, isComplete := false })

/-- The set of a key, or a fresh one. -/
def sourceMapSetOrNew (now : ℕ) (serviceId commitSha : JsString) (scope : ResourceScope)
    (s : BrokerState) : SourceMapSet :=
  (s.sourceMapSets.get? (sourceMapKey scope serviceId commitSha)).getD
    { scope, serviceId, commitSha, complete := false, updatedAt := IsoDate.toISOString now
      maps := ∅ }

structure SourceMapUpload where
  serviceId : JsString
  commitSha : JsString
  uploaderId : JsString
  mapPath : JsString
  map : List (JsString × Json)

/-- `stripSourcesContent` -/
def stripSourcesContent (map : List (JsString × Json)) : List (JsString × Json) :=
  Json.stripKeyMembers (js "sourcesContent") map

/-- An uploaded map enters its set. -/
def addSourceMap (now : ℕ) (input : SourceMapUpload) (scope : ResourceScope) (s : BrokerState) :
    BrokerState :=
  let set := s.sourceMapSetOrNew now input.serviceId input.commitSha scope
  { s with
    sourceMapSets := s.sourceMapSets.set (sourceMapKey scope input.serviceId input.commitSha)
      { set with
        complete := false
        updatedAt := IsoDate.toISOString now
        maps := set.maps.set input.mapPath
          { mapPath := input.mapPath, map := stripSourcesContent input.map
            uploadedAt := IsoDate.toISOString now } } }

/-- `uploadSourceMap`.  The lease is renewed before the map is validated. -/
def uploadSourceMap (cfg : Config) (now : ℕ) (input : SourceMapUpload) (scope : ResourceScope)
    (s : BrokerState) : BrokerState × Except BrokerError Unit :=
  match s.assertSourceMapUploader now input.serviceId input.commitSha input.uploaderId scope with
  | .error e => (s, .error e)
  | .ok s =>
    if cfg.validSourceMap input.mapPath (stripSourcesContent input.map) then
      (s.addSourceMap now input scope, .ok ())
    else (s, .error (.failure (js "invalid source map " ++ input.mapPath)))

/-- Newest first, then by key from the last. -/
def retainedLe (cfg : Config) (left right : JsString × SourceMapSet) : Bool :=
  match IsoDate.dateParse left.2.updatedAt, IsoDate.dateParse right.2.updatedAt with
  | some l, some r => if l = r then cfg.localeLe right.1 left.1 else r < l
  | _, _ => cfg.localeLe right.1 left.1

/-- The keys of a service's sets beyond the newest five. -/
def surplusSourceMaps (cfg : Config) (serviceId : JsString) (scope : ResourceScope)
    (sets : JsMap JsString SourceMapSet) : List JsString :=
  (((sets.entries.filter fun e => e.2.scope = scope && e.2.serviceId = serviceId).mergeSort
    (retainedLe cfg)).drop sourceMapCommitsPerService).map (·.1)

/-- The loop that drops surplus sets together with their leases. -/
def dropSourceMaps (keys : List JsString) (s : BrokerState) : BrokerState :=
  keys.foldl (fun s key =>
    { s with
      sourceMapSets := s.sourceMapSets.delete key
      sourceMapLeases := s.sourceMapLeases.delete key }) s

/-- The set of a key is marked complete and its lease ends. -/
def markComplete (now : ℕ) (serviceId commitSha : JsString) (scope : ResourceScope)
    (s : BrokerState) : BrokerState :=
  let key := sourceMapKey scope serviceId commitSha
  { s with
    sourceMapSets := s.sourceMapSets.set key
      { s.sourceMapSetOrNew now serviceId commitSha scope with
        complete := true, updatedAt := IsoDate.toISOString now }
    sourceMapLeases := s.sourceMapLeases.delete key }

def completeSourceMaps (cfg : Config) (now : ℕ) (serviceId commitSha uploaderId : JsString)
    (scope : ResourceScope) (s : BrokerState) : BrokerState × Except BrokerError Unit :=
  match s.assertSourceMapUploader now serviceId commitSha uploaderId scope with
  | .error e => (s, .error e)
  | .ok s =>
    let s := s.markComplete now serviceId commitSha scope
    let s := s.incrementServiceVersion serviceId scope
    (s.dropSourceMaps (surplusSourceMaps cfg serviceId scope s.sourceMapSets), .ok ())

/-- `getSourceMapSet` -/
def getSourceMapSet (serviceId commitSha : JsString) (scope : ResourceScope) (s : BrokerState) :
    Option SourceMapSet :=
  s.sourceMapSets.get? (sourceMapKey scope serviceId commitSha)

end BrokerState
