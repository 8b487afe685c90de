/-
LiveProbe/SourceMapLease.lean

Who may upload the source maps of a commit, and what a completed set holds.

Beside the state the run remembers, for each commit, who last took the lease
from nobody or from another uploader, and what was accepted of that uploader
since (`UploadLog`).  As long as a lease is recorded, expired or not, the log is
its holder's and the set holds what the log says; a complete set holds what was
logged when it was completed (`Remembers`).  A restored broker has no leases, so
that the next claim starts from an empty set and an empty log.
-/
import LiveProbe.History
import LiveProbe.Forget

open JsString BrokerState Protocol

/-- What a set of source maps is for. -/
structure Commit where
  scope : ResourceScope
  serviceId : JsString
  commitSha : JsString
  deriving DecidableEq

namespace Commit

def key (c : Commit) : JsString := sourceMapKey c.scope c.serviceId c.commitSha

theorem nul_notMem_commitSha {sha : JsString} (h : sourceCommitSchema sha = some sha) : nul ∉ sha :=
  fun hm => absurd (all_isHexUnit_of_lowerHex (stable_lowerHex 7 64 h) _ hm) (by decide)

theorem key_inj {c d : Commit} (hc : nul ∉ c.commitSha) (hd : nul ∉ d.commitSha) :
    c.key = d.key ↔ c = d := by
  constructor
  · intro h
    obtain ⟨⟨hscope, hservice⟩, hsha⟩ := (sourceMapKey_inj hc hd).mp h
    cases c
    cases d
    cases hscope
    cases hservice
    cases hsha
    rfl
  · rintro rfl
    rfl

end Commit

/-! ### What is remembered -/

/-- A source map as it is sent. -/
abbrev RawMap := List (JsString × Json)

/-- The uploads for a commit. -/
structure UploadLog where
  /-- Who last took the lease from nobody or from another uploader. -/
  taker : Option JsString := none
  /-- The uploads accepted since then, latest first. -/
  accepted : List SourceMapUpload := []
  /-- The uploads of the set that was completed last. -/
  completed : List SourceMapUpload := []

namespace UploadLog

def take (uploaderId : JsString) (log : UploadLog) : UploadLog :=
  { log with taker := some uploaderId, accepted := [] }

def accept (input : SourceMapUpload) (log : UploadLog) : UploadLog :=
  { log with accepted := input :: log.accepted }

def complete (log : UploadLog) : UploadLog := { log with completed := log.accepted }

/-- The latest content a list of uploads has for a path. -/
def latest (uploads : List SourceMapUpload) (path : JsString) : Option RawMap :=
  (uploads.find? fun input => input.mapPath = path).map fun input => stripSourcesContent input.map

theorem latest_cons (input : SourceMapUpload) (l : List SourceMapUpload) (path : JsString) :
    latest (input :: l) path =
      if path = input.mapPath then some (stripSourcesContent input.map) else latest l path := by
  rw [latest, List.find?_cons]
  by_cases h : path = input.mapPath
  · rw [decide_eq_true h.symm, if_pos h]
    rfl
  · rw [decide_eq_false (Ne.symm h), if_neg h]
    rfl

end UploadLog

namespace BrokerState

variable {cfg : Config} {now : ℕ} {scope : ResourceScope} {r : Request} {s t : BrokerState}

/-- The content of a path in the set of a key. -/
def mapAt (s : BrokerState) (key path : JsString) : Option RawMap :=
  ((s.sourceMapSets.get? key).bind fun set => set.maps.get? path).map (·.map)

/-- Whose lease is recorded for a key, whether it has expired or not. -/
def uploaderOf (s : BrokerState) (key : JsString) : Option JsString :=
  (s.sourceMapLeases.get? key).map (·.uploaderId)

/-- Whether an uploader passes `assertSourceMapUploader`. -/
def acceptsUploader (now : ℕ) (c : Commit) (uploaderId : JsString) (s : BrokerState) : Bool :=
  (s.assertSourceMapUploader now c.serviceId c.commitSha uploaderId c.scope).isOk

end BrokerState

/-- A claim that takes the lease from nobody or from another uploader starts a
log, an accepted upload is logged, and a completion keeps the log. -/
def rememberUploads (cfg : Config) (now : ℕ) (scope : ResourceScope) (r : Request) (s : BrokerState)
    (m : Commit → UploadLog) : Commit → UploadLog :=
  match r with
  | .sourceMapStatus serviceId commitSha uploaderId =>
    let c : Commit := ⟨scope, serviceId, commitSha⟩
    if (s.sourceMapStatus now serviceId commitSha uploaderId scope).2.isUploader = true ∧
        s.uploaderOf c.key ≠ some uploaderId then
      Function.update m c ((m c).take uploaderId)
    else m
  | .uploadSourceMap input =>
    let c : Commit := ⟨scope, input.serviceId, input.commitSha⟩
    if (s.uploadSourceMap cfg now input scope).2.isOk then
      Function.update m c ((m c).accept input)
    else m
  | .completeSourceMaps serviceId commitSha uploaderId =>
    let c : Commit := ⟨scope, serviceId, commitSha⟩
    if (s.completeSourceMaps cfg now serviceId commitSha uploaderId scope).2.isOk then
      Function.update m c (m c).complete
    else m
  | _ => m

/-- The requests of the source-map endpoints. -/
def Request.handlesMaps : Request → Bool
  | .sourceMapStatus .. | .uploadSourceMap .. | .completeSourceMaps .. => true
  | _ => false

/-- A state and a log agree on a commit. -/
structure Remembers (s : BrokerState) (c : Commit) (log : UploadLog) : Prop where
  leased : ∀ u, s.uploaderOf c.key = some u →
    (log.taker = some u ∧ ∀ input ∈ log.accepted, input.uploaderId = u) ∧
      ∀ path, s.mapAt c.key path = UploadLog.latest log.accepted path
  completed : s.isComplete c.key = true →
    ∀ path, s.mapAt c.key path = UploadLog.latest log.completed path

namespace Remembers

variable {cfg : Config} {now : ℕ} {scope : ResourceScope} {r : Request} {s t : BrokerState}
  {c d : Commit} {log : UploadLog}

/-- Only the set and the holder of the commit matter. -/
theorem congr (h : Remembers s c log) (hset : t.sourceMapSets.get? c.key = s.sourceMapSets.get? c.key)
    (holder : t.uploaderOf c.key = s.uploaderOf c.key) : Remembers t c log := by
  have hmap : ∀ path, t.mapAt c.key path = s.mapAt c.key path := fun path => by
    rw [mapAt, mapAt, hset]
  constructor
  · intro u hu
    rw [holder] at hu
    obtain ⟨hlog, hmaps⟩ := h.leased u hu
    exact ⟨hlog, fun path => by rw [hmap, hmaps]⟩
  · intro hc path
    rw [isComplete, hset] at hc
    rw [hmap, h.completed hc]

/-- Nothing is said of a commit without a set and without a lease. -/
theorem of_absent (hset : t.sourceMapSets.get? c.key = none) (holder : t.uploaderOf c.key = none) :
    Remembers t c log := by
  constructor
  · intro u hu
    rw [holder] at hu
    cases hu
  · intro hc
    rw [isComplete, hset] at hc
    cases hc

end Remembers

namespace BrokerState

variable {cfg : Config} {now : ℕ} {scope : ResourceScope} {r : Request} {s t : BrokerState}
  {c d : Commit} {log : UploadLog}

/-! ### Leases -/

theorem uploaderOf_grantLease (now : ℕ) (key u : JsString) (s : BrokerState) (k : JsString) :
    (s.grantLease now key u).uploaderOf k = if k = key then some u else s.uploaderOf k := by
  show ((s.sourceMapLeases.set key _).get? k).map _ = _
  rw [JsMap.get?_set]
  split <;> rfl

/-- Who passes `assertSourceMapUploader` is the holder of the lease. -/
theorem uploaderOf_of_holdsLease {key u : JsString}
    (h : holdsLease now u (s.sourceMapLeases.get? key) = true) : s.uploaderOf key = some u := by
  rw [uploaderOf]
  rcases hl : s.sourceMapLeases.get? key with - | lease
  · rw [hl] at h
    cases h
  · rw [hl, holdsLease, Bool.and_eq_true, decide_eq_true_eq, decide_eq_true_eq] at h
    rw [Option.map_some, h.2]

/-- A renewed lease has the holder it had. -/
theorem uploaderOf_renew {key u : JsString}
    (h : holdsLease now u (s.sourceMapLeases.get? key) = true) :
    (s.grantLease now key u).uploaderOf = s.uploaderOf := by
  funext k
  rw [uploaderOf_grantLease]
  split
  · next hk => rw [hk, uploaderOf_of_holdsLease h]
  · rfl

/-! ### Requests of other kinds -/

/-- A change of another kind leaves the sets and the holders of the leases alone. -/
theorem maps_change (h : Change cfg now scope r s t) (hr : r.handlesMaps = false) :
    t.sourceMapSets = s.sourceMapSets ∧ t.uploaderOf = s.uploaderOf := by
  have of_core : ∀ {u : BrokerState}, u.core = s.core →
      u.sourceMapSets = s.sourceMapSets ∧ u.uploaderOf = s.uploaderOf := by
    intro u hu
    simp only [core, Prod.mk.injEq] at hu
    obtain ⟨-, -, hsets, hleases⟩ := hu
    exact ⟨hsets, funext fun key => by rw [uploaderOf, uploaderOf, hleases]⟩
  cases h with
  | expire =>
    obtain ⟨_, _, _, _, _, hframe⟩ := frame_expireDueProbes cfg now s
    rw [hframe]
    exact ⟨rfl, rfl⟩
  | refresh serviceId => exact of_core (core_refreshServiceCapabilities serviceId)
  | touch serviceId => exact ⟨rfl, rfl⟩
  | failCreate draws input => exact ⟨rfl, rfl⟩
  | create draws input compiled id probe => exact ⟨rfl, rfl⟩
  | deleteExpired id => exact ⟨rfl, rfl⟩
  | deleteLive id stored => exact ⟨rfl, rfl⟩
  | claim serviceId commitSha uploaderId isStatus => subst isStatus; cases hr
  | renew serviceId commitSha uploaderId held => exact ⟨rfl, uploaderOf_renew held⟩
  | upload input isUpload => subst isUpload; cases hr
  | complete serviceId commitSha uploaderId isComplete => subst isComplete; cases hr
  | report input => exact ⟨rfl, rfl⟩
  | event input e => exact of_core (core_ingestEvent e)
  | register input => exact of_core (core_registerNativeAgent input)
  | replace agentId instances allowed =>
    exact of_core (core_replaceNativeInstances agentId instances allowed)
  | prune => exact ⟨rfl, rfl⟩
  | health => exact ⟨rfl, rfl⟩
  | nativeEvent input i stored e => exact of_core (core_ingestNativeEvent input e)
  | touchNative input => exact of_core (core_touchNativeService input)

/-! ### Snapshots -/

/-- A snapshot brings the sets of its state back. -/
theorem sourceMapSets_loadSnapshot (hi : Indexed s) {n : ℕ} {b : BrokerSnapshot}
    (hb : s.snapshot n = some b) (t : BrokerState) :
    (t.loadSnapshot cfg now b).1.sourceMapSets = s.sourceMapSets := by
  have hcore := core_refill cfg t hi hb
  simp only [core, Prod.mk.injEq] at hcore
  obtain ⟨-, -, hsets, -⟩ := hcore
  obtain ⟨_, _, _, _, _, hframe⟩ := frame_expireDueProbes cfg now (t.refill cfg b)
  rw [loadSnapshot_of_snapshot hb, replaceWithSnapshot, hframe, hsets]

/-- No lease outlives a restart or a rollback. -/
theorem uploaderOf_loadSnapshot {n : ℕ} {b : BrokerSnapshot} (hb : s.snapshot n = some b)
    (t : BrokerState) (key : JsString) : (t.loadSnapshot cfg now b).1.uploaderOf key = none := by
  obtain ⟨_, _, _, _, _, hframe⟩ := frame_expireDueProbes cfg now (t.refill cfg b)
  rw [loadSnapshot_of_snapshot hb, replaceWithSnapshot, hframe]
  rfl

/-! ### Claims -/

theorem clearForeignMaps_of_own {key u : JsString} (h : s.uploaderOf key = some u) :
    s.clearForeignMaps now key u = s := by
  rw [clearForeignMaps]
  rcases s.sourceMapSets.get? key with - | set
  · rfl
  obtain ⟨lease, hlease, hu⟩ := Option.map_eq_some_iff.mp h
  dsimp only
  rw [hlease, if_pos (by simpa using hu)]

/-- A set that another uploader left, or no uploader, is emptied. -/
theorem mapAt_clearForeignMaps {key u : JsString} (h : s.uploaderOf key ≠ some u) (path : JsString) :
    (s.clearForeignMaps now key u).mapAt key path = none := by
  rw [mapAt, clearForeignMaps]
  rcases hg : s.sourceMapSets.get? key with - | set
  · simp [hg]
  have hforeign : ¬ (s.sourceMapLeases.get? key).any (fun lease => lease.uploaderId = u) = true := by
    intro hany
    obtain ⟨lease, hlease, hu⟩ := (Option.any_eq_true _ _).mp hany
    exact h (by rw [uploaderOf, hlease, Option.map_some, of_decide_eq_true hu])
  dsimp only
  rw [if_neg hforeign]
  simp

theorem sourceMapSets_clearForeignMaps_of_ne {key k : JsString} (hk : k ≠ key) (u : JsString) :
    (s.clearForeignMaps now key u).sourceMapSets.get? k = s.sourceMapSets.get? k := by
  obtain h | ⟨set, -, h⟩ := clearForeignMaps_eq now key u s
  · rw [h]
  · rw [h]
    exact JsMap.get?_set_of_ne hk _

theorem uploaderOf_clearForeignMaps (key u : JsString) :
    (s.clearForeignMaps now key u).uploaderOf = s.uploaderOf := by
  obtain h | ⟨set, -, h⟩ := clearForeignMaps_eq now key u s <;> rw [h]
  rfl

/-- A refused claim changes nothing; a granted one is for a set that is not
complete, and whoever else held the lease held it no longer. -/
theorem sourceMapStatus_cases (now : ℕ) (c : Commit) (u : JsString) (s : BrokerState) :
    ((s.sourceMapStatus now c.serviceId c.commitSha u c.scope).2.isUploader = false ∧
      (s.sourceMapStatus now c.serviceId c.commitSha u c.scope).1 = s) ∨
    ((s.sourceMapStatus now c.serviceId c.commitSha u c.scope).2.isUploader = true ∧
      s.isComplete c.key = false ∧ claimable now u (s.sourceMapLeases.get? c.key) = true ∧
      (s.sourceMapStatus now c.serviceId c.commitSha u c.scope).1 =
        (s.clearForeignMaps now c.key u).grantLease now c.key u) := by
  simp only [sourceMapStatus]
  split
  · exact Or.inl ⟨rfl, rfl⟩
  · next hc =>
    split
    · next hl => exact Or.inr ⟨rfl, Bool.not_eq_true _ ▸ hc, hl, rfl⟩
    · exact Or.inl ⟨rfl, rfl⟩

end BrokerState

namespace Remembers

variable {cfg : Config} {now : ℕ} {scope : ResourceScope} {r : Request} {s t : BrokerState}
  {c d : Commit} {log : UploadLog}

/-- Whoever takes the lease starts from an empty set. -/
theorem claim_taken {u : JsString} (h : s.uploaderOf c.key ≠ some u)
    (hc : s.isComplete c.key = false) :
    Remembers ((s.clearForeignMaps now c.key u).grantLease now c.key u) c (log.take u) := by
  constructor
  · intro v hv
    rw [uploaderOf_grantLease, if_pos rfl] at hv
    exact ⟨⟨hv, fun input hmem => absurd hmem List.not_mem_nil⟩,
      fun path => mapAt_clearForeignMaps h path⟩
  · intro hcomplete
    exfalso
    have hset : (s.clearForeignMaps now c.key u).isComplete c.key = true := hcomplete
    obtain heq | ⟨set, hg, heq⟩ := clearForeignMaps_eq now c.key u s
    · rw [heq, hc] at hset
      cases hset
    · rw [heq, isComplete, JsMap.get?_set_self, Option.any_some] at hset
      rw [isComplete, hg, Option.any_some] at hc
      exact absurd (hc.symm.trans hset) (by decide)

/-- Whoever has the lease claims it again and goes on. -/
theorem claim_again (h : Remembers s c log) {u : JsString} (hu : s.uploaderOf c.key = some u) :
    Remembers ((s.clearForeignMaps now c.key u).grantLease now c.key u) c log := by
  rw [clearForeignMaps_of_own hu]
  refine h.congr rfl ?_
  rw [uploaderOf_grantLease, if_pos rfl, hu]

theorem claim_other (h : Remembers s d log) {key : JsString} (hd : d.key ≠ key) (u : JsString) :
    Remembers ((s.clearForeignMaps now key u).grantLease now key u) d log := by
  refine h.congr (sourceMapSets_clearForeignMaps_of_ne hd u) ?_
  rw [uploaderOf_grantLease, if_neg hd, uploaderOf_clearForeignMaps]

/-- A claim keeps the state and the logs in agreement. -/
theorem status {m : Commit → UploadLog} (h : ∀ d, nul ∉ d.commitSha → Remembers s d (m d))
    {serviceId commitSha : JsString} (uploaderId : JsString) (hsha : nul ∉ commitSha) (hd : nul ∉ d.commitSha) :
    Remembers (s.sourceMapStatus now serviceId commitSha uploaderId scope).1 d
      (rememberUploads cfg now scope (.sourceMapStatus serviceId commitSha uploaderId) s m d) := by
  let c : Commit := ⟨scope, serviceId, commitSha⟩
  obtain ⟨hno, hs⟩ | ⟨hyes, hc, -, hs⟩ := sourceMapStatus_cases now c uploaderId s
  · have hm : rememberUploads cfg now scope (.sourceMapStatus serviceId commitSha uploaderId) s m = m :=
      if_neg fun hp => absurd (hno.symm.trans hp.1) (by decide)
    rw [hm]
    show Remembers (s.sourceMapStatus now c.serviceId c.commitSha uploaderId c.scope).1 d (m d)
    rw [hs]
    exact h d hd
  show Remembers (s.sourceMapStatus now c.serviceId c.commitSha uploaderId c.scope).1 d _
  rw [hs]
  by_cases hu : s.uploaderOf c.key = some uploaderId
  · have hm : rememberUploads cfg now scope (.sourceMapStatus serviceId commitSha uploaderId) s m = m :=
      if_neg fun hp => hp.2 hu
    rw [hm]
    by_cases hdc : d = c
    · subst hdc
      exact (h c hsha).claim_again hu
    · exact (h d hd).claim_other (fun hk => hdc ((Commit.key_inj hd hsha).mp hk)) uploaderId
  · have hm : rememberUploads cfg now scope (.sourceMapStatus serviceId commitSha uploaderId) s m =
        Function.update m c ((m c).take uploaderId) := if_pos ⟨hyes, hu⟩
    rw [hm]
    by_cases hdc : d = c
    · subst hdc
      rw [Function.update_self]
      exact claim_taken hu hc
    · rw [Function.update_of_ne hdc]
      exact (h d hd).claim_other (fun hk => hdc ((Commit.key_inj hd hsha).mp hk)) uploaderId

end Remembers

namespace BrokerState

variable {cfg : Config} {now : ℕ} {scope : ResourceScope} {s : BrokerState}

/-! ### Uploads and completions -/

/-- An upload is refused, or it renews the lease and is then stored or not. -/
theorem uploadSourceMap_cases (cfg : Config) (now : ℕ) (input : SourceMapUpload)
    (scope : ResourceScope) (s : BrokerState) :
    ((s.uploadSourceMap cfg now input scope).2.isOk = false ∧
      (s.uploadSourceMap cfg now input scope).1.sourceMapSets = s.sourceMapSets ∧
      (s.uploadSourceMap cfg now input scope).1.uploaderOf = s.uploaderOf) ∨
    ((s.uploadSourceMap cfg now input scope).2.isOk = true ∧
      holdsLease now input.uploaderId
        (s.sourceMapLeases.get? (sourceMapKey scope input.serviceId input.commitSha)) = true ∧
      (s.uploadSourceMap cfg now input scope).1 =
        (s.grantLease now (sourceMapKey scope input.serviceId input.commitSha)
          input.uploaderId).addSourceMap now input scope) := by
  unfold uploadSourceMap
  rcases ha : s.assertSourceMapUploader now input.serviceId input.commitSha input.uploaderId scope
    with e | t
  · exact Or.inl ⟨rfl, rfl, rfl⟩
  obtain ⟨held, rfl⟩ := assertSourceMapUploader_eq_ok ha
  dsimp only
  split
  · exact Or.inr ⟨rfl, held, rfl⟩
  · exact Or.inl ⟨rfl, rfl, uploaderOf_renew held⟩

/-- A completion is refused, or it marks the set and drops surplus ones. -/
theorem completeSourceMaps_cases (cfg : Config) (now : ℕ) (c : Commit) (u : JsString)
    (s : BrokerState) :
    ((s.completeSourceMaps cfg now c.serviceId c.commitSha u c.scope).2.isOk = false ∧
      (s.completeSourceMaps cfg now c.serviceId c.commitSha u c.scope).1 = s) ∨
    ((s.completeSourceMaps cfg now c.serviceId c.commitSha u c.scope).2.isOk = true ∧
      holdsLease now u (s.sourceMapLeases.get? c.key) = true ∧
      ∃ keys, (s.completeSourceMaps cfg now c.serviceId c.commitSha u c.scope).1 =
        (((s.grantLease now c.key u).markComplete now c.serviceId c.commitSha
          c.scope).incrementServiceVersion c.serviceId c.scope).dropSourceMaps keys) := by
  unfold completeSourceMaps
  rcases ha : s.assertSourceMapUploader now c.serviceId c.commitSha u c.scope with e | t
  · exact Or.inl ⟨rfl, rfl⟩
  obtain ⟨held, rfl⟩ := assertSourceMapUploader_eq_ok ha
  exact Or.inr ⟨rfl, held, _, rfl⟩

theorem isComplete_addSourceMap (input : SourceMapUpload) :
    (s.addSourceMap now input scope).isComplete
      (sourceMapKey scope input.serviceId input.commitSha) = false := by
  rw [isComplete, addSourceMap, JsMap.get?_set_self]
  rfl

/-- The maps of a set, or of the fresh one. -/
theorem maps_sourceMapSetOrNew (serviceId commitSha path : JsString) :
    ((s.sourceMapSetOrNew now serviceId commitSha scope).maps.get? path).map (·.map) =
      s.mapAt (sourceMapKey scope serviceId commitSha) path := by
  rw [sourceMapSetOrNew, mapAt]
  rcases s.sourceMapSets.get? (sourceMapKey scope serviceId commitSha) with - | set <;> rfl

theorem mapAt_addSourceMap (input : SourceMapUpload) (path : JsString) :
    (s.addSourceMap now input scope).mapAt (sourceMapKey scope input.serviceId input.commitSha)
        path =
      if path = input.mapPath then some (stripSourcesContent input.map)
      else s.mapAt (sourceMapKey scope input.serviceId input.commitSha) path := by
  rw [mapAt, addSourceMap, JsMap.get?_set_self, Option.bind_some, JsMap.get?_set]
  split
  · rfl
  · exact maps_sourceMapSetOrNew input.serviceId input.commitSha path

theorem mapAt_markComplete (serviceId commitSha path : JsString) :
    (s.markComplete now serviceId commitSha scope).mapAt
      (sourceMapKey scope serviceId commitSha) path =
        s.mapAt (sourceMapKey scope serviceId commitSha) path := by
  rw [mapAt, markComplete, JsMap.get?_set_self, Option.bind_some]
  exact maps_sourceMapSetOrNew serviceId commitSha path

/-- A dropped set leaves with its lease. -/
theorem dropSourceMaps_cases (keys : List JsString) (s : BrokerState) (key : JsString) :
    ((s.dropSourceMaps keys).sourceMapSets.get? key = none ∧
      (s.dropSourceMaps keys).uploaderOf key = none) ∨
    ((s.dropSourceMaps keys).sourceMapSets.get? key = s.sourceMapSets.get? key ∧
      (s.dropSourceMaps keys).uploaderOf key = s.uploaderOf key) := by
  rw [dropSourceMaps_eq, uploaderOf, uploaderOf, JsMap.get?_foldl_delete, JsMap.get?_foldl_delete]
  by_cases hk : key ∈ keys
  · rw [if_pos hk, if_pos hk]
    exact Or.inl ⟨rfl, rfl⟩
  · rw [if_neg hk, if_neg hk]
    exact Or.inr ⟨rfl, rfl⟩

end BrokerState

namespace Remembers

variable {cfg : Config} {now : ℕ} {scope : ResourceScope} {r : Request} {s t : BrokerState}
  {c d : Commit} {log : UploadLog}

/-- A set that surplus is dropped from is as it was or gone. -/
theorem dropSourceMaps (h : Remembers s c log) (keys : List JsString) :
    Remembers (s.dropSourceMaps keys) c log := by
  obtain ⟨hset, holder⟩ | ⟨hset, holder⟩ := dropSourceMaps_cases keys s c.key
  · exact of_absent hset holder
  · exact h.congr hset holder

/-- An accepted upload is stored and logged. -/
theorem addSourceMap {input : SourceMapUpload}
    (h : Remembers s ⟨scope, input.serviceId, input.commitSha⟩ log)
    (holder : s.uploaderOf (sourceMapKey scope input.serviceId input.commitSha) =
      some input.uploaderId) :
    Remembers (s.addSourceMap now input scope) ⟨scope, input.serviceId, input.commitSha⟩
      (log.accept input) := by
  constructor
  · intro u hu
    obtain ⟨⟨htaker, hown⟩, hmaps⟩ := h.leased u hu
    refine ⟨⟨htaker, ?_⟩, fun path => ?_⟩
    · rintro i (- | ⟨_, hi⟩)
      · exact Option.some.inj (holder.symm.trans hu)
      · exact hown i hi
    · rw [UploadLog.accept, UploadLog.latest_cons, ← hmaps]
      exact mapAt_addSourceMap input path
  · intro hc
    exact absurd ((isComplete_addSourceMap input).symm.trans hc) (by decide)

/-- A completed set holds what was logged. -/
theorem markComplete (h : Remembers s c log) {u : JsString} (hu : s.uploaderOf c.key = some u) :
    Remembers (s.markComplete now c.serviceId c.commitSha c.scope) c log.complete := by
  have hmap : ∀ path, (s.markComplete now c.serviceId c.commitSha c.scope).mapAt c.key path =
      UploadLog.latest log.accepted path := fun path =>
    (mapAt_markComplete c.serviceId c.commitSha path).trans ((h.leased u hu).2 path)
  constructor
  · intro v hv
    have hnone : (s.markComplete now c.serviceId c.commitSha c.scope).uploaderOf c.key = none := by
      show ((s.sourceMapLeases.delete c.key).get? c.key).map _ = none
      rw [JsMap.get?_delete_self]
      rfl
    rw [hnone] at hv
    cases hv
  · exact fun _ => hmap

theorem upload {m : Commit → UploadLog} (h : ∀ d, nul ∉ d.commitSha → Remembers s d (m d))
    {input : SourceMapUpload} (hsha : nul ∉ input.commitSha) (hd : nul ∉ d.commitSha) :
    Remembers (s.uploadSourceMap cfg now input scope).1 d
      (rememberUploads cfg now scope (.uploadSourceMap input) s m d) := by
  let c : Commit := ⟨scope, input.serviceId, input.commitSha⟩
  obtain ⟨hno, hset, holder⟩ | ⟨hyes, held, hs⟩ := uploadSourceMap_cases cfg now input scope s
  · have hm : rememberUploads cfg now scope (.uploadSourceMap input) s m = m :=
      if_neg fun hp => absurd (hno.symm.trans hp) (by decide)
    rw [hm]
    exact (h d hd).congr (by rw [hset]) (by rw [holder])
  have hm : rememberUploads cfg now scope (.uploadSourceMap input) s m =
      Function.update m c ((m c).accept input) := if_pos hyes
  have hrenewed : ∀ d, nul ∉ d.commitSha →
      Remembers (s.grantLease now c.key input.uploaderId) d (m d) := fun d hd =>
    (h d hd).congr rfl (congrFun (uploaderOf_renew held) d.key)
  rw [hm, hs]
  by_cases hdc : d = c
  · subst hdc
    rw [Function.update_self]
    refine (hrenewed c hsha).addSourceMap ?_
    rw [uploaderOf_grantLease]
    exact if_pos rfl
  · have hkey : d.key ≠ c.key := fun hk => hdc ((Commit.key_inj hd hsha).mp hk)
    rw [Function.update_of_ne hdc]
    exact (hrenewed d hd).congr (JsMap.get?_set_of_ne hkey _) rfl

theorem completion {m : Commit → UploadLog} (h : ∀ d, nul ∉ d.commitSha → Remembers s d (m d))
    {serviceId commitSha : JsString} (uploaderId : JsString) (hsha : nul ∉ commitSha)
    (hd : nul ∉ d.commitSha) :
    Remembers (s.completeSourceMaps cfg now serviceId commitSha uploaderId scope).1 d
      (rememberUploads cfg now scope (.completeSourceMaps serviceId commitSha uploaderId) s m d) := by
  let c : Commit := ⟨scope, serviceId, commitSha⟩
  show Remembers (s.completeSourceMaps cfg now c.serviceId c.commitSha uploaderId c.scope).1 d _
  obtain ⟨hno, hs⟩ | ⟨hyes, held, keys, hs⟩ := completeSourceMaps_cases cfg now c uploaderId s
  · have hm : rememberUploads cfg now scope (.completeSourceMaps serviceId commitSha uploaderId) s m
        = m := if_neg fun hp => absurd (hno.symm.trans hp) (by decide)
    rw [hm, hs]
    exact h d hd
  have hm : rememberUploads cfg now scope (.completeSourceMaps serviceId commitSha uploaderId) s m =
      Function.update m c (m c).complete := if_pos hyes
  have hrenewed : ∀ d, nul ∉ d.commitSha →
      Remembers (s.grantLease now c.key uploaderId) d (m d) := fun d hd =>
    (h d hd).congr rfl (congrFun (uploaderOf_renew held) d.key)
  rw [hm, hs]
  refine Remembers.dropSourceMaps ?_ keys
  by_cases hdc : d = c
  · subst hdc
    rw [Function.update_self]
    have holder : (s.grantLease now c.key uploaderId).uploaderOf c.key = some uploaderId := by
      rw [uploaderOf_grantLease, if_pos rfl]
    exact ((hrenewed c hsha).markComplete holder).congr rfl rfl
  · have hkey : d.key ≠ c.key := fun hk => hdc ((Commit.key_inj hd hsha).mp hk)
    rw [Function.update_of_ne hdc]
    refine (hrenewed d hd).congr (JsMap.get?_set_of_ne hkey _) ?_
    exact congrArg (Option.map _) (JsMap.get?_delete_of_ne hkey)

/-- **A request keeps the state and the logs in agreement.** -/
theorem handle {m : Commit → UploadLog} (h : ∀ d, nul ∉ d.commitSha → Remembers s d (m d))
    (hv : r.Valid) (hd : nul ∉ d.commitSha) :
    Remembers (s.handle cfg now scope r).1 d (rememberUploads cfg now scope r s m d) := by
  have other : r.handlesMaps = false → rememberUploads cfg now scope r s m = m →
      Remembers (s.handle cfg now scope r).1 d (rememberUploads cfg now scope r s m d) := by
    intro hr hm
    rw [hm]
    have hchanges := handle_changes cfg now scope r s
    generalize (s.handle cfg now scope r).1 = t at hchanges ⊢
    induction hchanges with
    | refl => exact h d hd
    | tail _ hstep ih =>
      obtain ⟨hsets, holder⟩ := maps_change hstep hr
      exact ih.congr (by rw [hsets]) (by rw [holder])
  cases r with
  | sourceMapStatus serviceId commitSha uploaderId =>
    exact status h uploaderId (Commit.nul_notMem_commitSha hv.2.1) hd
  | uploadSourceMap input => exact upload h (Commit.nul_notMem_commitSha hv.2.1) hd
  | completeSourceMaps serviceId commitSha uploaderId =>
    exact completion h uploaderId (Commit.nul_notMem_commitSha hv.2.1) hd
  | _ => exact other rfl rfl

/-- A restored state has the sets of the state that was saved, and no leases. -/
theorem loadSnapshot (h : Remembers s c log) (hi : Indexed s) {n : ℕ} {b : BrokerSnapshot}
    (hb : s.snapshot n = some b) (t : BrokerState) :
    Remembers (t.loadSnapshot cfg now b).1 c log := by
  have hsets : (t.loadSnapshot cfg now b).1.sourceMapSets = s.sourceMapSets :=
    sourceMapSets_loadSnapshot hi hb t
  constructor
  · intro u hu
    rw [uploaderOf_loadSnapshot hb] at hu
    cases hu
  · intro hc path
    rw [isComplete, hsets] at hc
    rw [mapAt, hsets]
    exact h.completed hc path

end Remembers

namespace BrokerState

variable {cfg : Config} {now : ℕ} {scope : ResourceScope} {r : Request} {s : BrokerState} {c : Commit}

/-! ### One uploader at a time -/

theorem acceptsUploader_eq (now : ℕ) (c : Commit) (u : JsString) (s : BrokerState) :
    s.acceptsUploader now c u = holdsLease now u (s.sourceMapLeases.get? c.key) := by
  show (if holdsLease now u (s.sourceMapLeases.get? c.key) = true then
    Except.ok (s.grantLease now c.key u) else .error notClaimed).isOk = _
  split
  · next h => exact h.symm
  · next h => exact (Bool.not_eq_true _ ▸ h).symm

/-- While an uploader is accepted no other one is, and none is told to upload. -/
theorem refused_of_accepted {u v : JsString} (h : s.acceptsUploader now c u = true) (hne : v ≠ u) :
    s.acceptsUploader now c v = false ∧
      (s.sourceMapStatus now c.serviceId c.commitSha v c.scope).2.isUploader = false := by
  rw [acceptsUploader_eq] at h ⊢
  rcases hl : s.sourceMapLeases.get? c.key with - | lease
  · rw [hl] at h
    cases h
  rw [hl, holdsLease, Bool.and_eq_true, decide_eq_true_eq, decide_eq_true_eq] at h
  have hv : lease.uploaderId ≠ v := fun hlv => hne (hlv.symm.trans h.2)
  constructor
  · rw [holdsLease, decide_eq_false hv, Bool.and_false]
  · obtain ⟨hno, -⟩ | ⟨-, -, hclaim, -⟩ := sourceMapStatus_cases now c v s
    · exact hno
    · -- the lease has not expired, and it is another's
      rw [hl, claimable, decide_eq_false hv, decide_eq_false (by omega)] at hclaim
      cases hclaim

/-- Who is told to upload is accepted from then on. -/
theorem accepted_of_status {u : JsString}
    (h : (s.sourceMapStatus now c.serviceId c.commitSha u c.scope).2.isUploader = true) :
    (s.sourceMapStatus now c.serviceId c.commitSha u c.scope).1.acceptsUploader now c u = true := by
  obtain ⟨hno, -⟩ | ⟨-, -, -, hs⟩ := sourceMapStatus_cases now c u s
  · rw [hno] at h
    cases h
  · rw [hs, acceptsUploader_eq, grantLease, JsMap.get?_set_self, holdsLease, Bool.and_eq_true,
      decide_eq_true_eq, decide_eq_true_eq]
    exact ⟨Nat.lt_add_of_pos_right (by decide), rfl⟩

/-! ### A complete set is left alone -/

/-- A request leaves a complete set as it is, or drops it. -/
theorem completeSet_handle (hi : Indexed s) (hc : s.isComplete c.key = true) :
    (s.handle cfg now scope r).1.sourceMapSets.get? c.key = s.sourceMapSets.get? c.key ∨
      (s.handle cfg now scope r).1.sourceMapSets.get? c.key = none := by
  have unleased : ∀ {key u : JsString}, holdsLease now u (s.sourceMapLeases.get? key) = true →
      c.key ≠ key := by
    rintro key u held rfl
    rcases hl : s.sourceMapLeases.get? c.key with - | lease
    · rw [hl] at held
      cases held
    · exact absurd (hc.symm.trans (hi.leases _ _ hl)) (by decide)
  have other : r.handlesMaps = false →
      (s.handle cfg now scope r).1.sourceMapSets = s.sourceMapSets := by
    intro hr
    have hchanges := handle_changes cfg now scope r s
    generalize (s.handle cfg now scope r).1 = t at hchanges ⊢
    induction hchanges with
    | refl => rfl
    | tail _ hstep ih => rw [(maps_change hstep hr).1, ih]
  cases r with
  | sourceMapStatus serviceId commitSha uploaderId =>
    left
    obtain ⟨-, hs⟩ | ⟨-, hinc, -, hs⟩ :=
      sourceMapStatus_cases now ⟨scope, serviceId, commitSha⟩ uploaderId s
    · exact congrArg (fun t => t.sourceMapSets.get? c.key) hs
    · refine (congrArg (fun t => t.sourceMapSets.get? c.key) hs).trans ?_
      refine sourceMapSets_clearForeignMaps_of_ne (fun hk => ?_) uploaderId
      rw [← hk, hc] at hinc
      cases hinc
  | uploadSourceMap input =>
    left
    obtain ⟨-, hs, -⟩ | ⟨-, held, hs⟩ := uploadSourceMap_cases cfg now input scope s
    · exact congrArg (fun m => m.get? c.key) hs
    · refine (congrArg (fun t => t.sourceMapSets.get? c.key) hs).trans ?_
      exact JsMap.get?_set_of_ne (unleased held) _
  | completeSourceMaps serviceId commitSha uploaderId =>
    obtain ⟨-, hs⟩ | ⟨-, held, keys, hs⟩ :=
      completeSourceMaps_cases cfg now ⟨scope, serviceId, commitSha⟩ uploaderId s
    · exact Or.inl (congrArg (fun t => t.sourceMapSets.get? c.key) hs)
    · have hs' := congrArg (fun t => t.sourceMapSets.get? c.key) hs
      obtain ⟨hset, -⟩ | ⟨hset, -⟩ := dropSourceMaps_cases keys _ c.key
      · exact Or.inr (hs'.trans hset)
      · refine Or.inl ((hs'.trans hset).trans ?_)
        exact JsMap.get?_set_of_ne (unleased held) _
  | _ => exact Or.inl (by rw [other rfl])

end BrokerState

/-! ### Every run -/

namespace Commit

variable {cfg : Config} {p : History (Commit → UploadLog)}

/-- The logs agree with the state throughout. -/
theorem remembers_of_reached
    (h : Reached (History.next cfg (rememberUploads cfg)) (fun _ e => Process.Valid e)
      { memory := fun _ => {} } p) :
    Indexed p.state ∧ ∀ c, nul ∉ c.commitSha → Remembers p.state c (p.memory c) := by
  refine History.invariant_since
    (I := fun s m => Indexed s ∧ ∀ c, nul ∉ c.commitSha → Remembers s c (m c)) ?_ ?_ ?_ ?_ h
  · exact ⟨.init, fun c _ => .of_absent rfl rfl⟩
  · intro p now scope r ⟨hi, hm⟩ hv
    exact ⟨hi.handle hv, fun c hc => Remembers.handle hm hv hc⟩
  · intro p now ⟨hi, hm⟩ _
    obtain ⟨_, _, _, _, _, hframe⟩ := frame_expireDueProbes cfg now p.state
    refine ⟨hi.expireDueProbes, fun c hc => ?_⟩
    rw [hframe]
    exact (hm c hc).congr rfl rfl
  · intro p e now _ _ s t m b n ⟨hi, hm⟩ hb
    refine ⟨?_, fun c hc => (hm c hc).loadSnapshot hi hb t⟩
    rw [loadSnapshot_of_snapshot hb]
    exact (Indexed.refill (Broker.snapshotSchema_eq_some.mp hb)).expireDueProbes

/-- **A source-map set is one uploader's.**  The uploader that is accepted is
the one who took the lease last, and while it is, no other is accepted or told
to upload.  A completion is that uploader's, and the set it marks holds the
uploads accepted since, all of them its own, each path with its latest content.
A complete set stays what was completed: a request may drop it, and nothing
else happens to it. -/
theorem sourceMaps_of_uploader
    (h : Reached (History.next cfg (rememberUploads cfg)) (fun _ e => Process.Valid e)
      { memory := fun _ => {} } p)
    {c : Commit} (hc : sourceCommitSchema c.commitSha = some c.commitSha) (now : ℕ) :
    (∀ u, p.state.acceptsUploader now c u = true →
      (p.memory c).taker = some u ∧
        ∀ v ≠ u, p.state.acceptsUploader now c v = false ∧
          (p.state.sourceMapStatus now c.serviceId c.commitSha v c.scope).2.isUploader = false) ∧
    (∀ u, (p.state.sourceMapStatus now c.serviceId c.commitSha u c.scope).2.isUploader = true →
      (p.state.sourceMapStatus now c.serviceId c.commitSha u c.scope).1.acceptsUploader now c u =
        true) ∧
    (∀ u s, p.state.completeSourceMaps cfg now c.serviceId c.commitSha u c.scope = (s, .ok ()) →
      (p.memory c).taker = some u ∧ (∀ input ∈ (p.memory c).accepted, input.uploaderId = u) ∧
        ∃ set, (p.state.markComplete now c.serviceId c.commitSha c.scope).sourceMapSets.get? c.key =
            some set ∧
          set.complete = true ∧
          (∀ path, (set.maps.get? path).map (·.map) =
            UploadLog.latest (p.memory c).accepted path) ∧
          (s.sourceMapSets.get? c.key = some set ∨ s.sourceMapSets.get? c.key = none)) ∧
    (p.state.isComplete c.key = true →
      (∀ path, p.state.mapAt c.key path = UploadLog.latest (p.memory c).completed path) ∧
        (∀ scope r, (p.state.handle cfg now scope r).1.sourceMapSets.get? c.key =
            p.state.sourceMapSets.get? c.key ∨
          (p.state.handle cfg now scope r).1.sourceMapSets.get? c.key = none) ∧
        (p.state.expireDueProbes cfg now).sourceMapSets = p.state.sourceMapSets ∧
        ∀ n b t, p.state.snapshot n = some b →
          (BrokerState.loadSnapshot cfg now b t).1.sourceMapSets = p.state.sourceMapSets) := by
  obtain ⟨hi, hm⟩ := remembers_of_reached h
  have hr : Remembers p.state c (p.memory c) := hm c (nul_notMem_commitSha hc)
  refine ⟨fun u hu => ?_, fun u hu => accepted_of_status hu, fun u s hs => ?_, fun hcomplete => ?_⟩
  · have held := hu
    rw [acceptsUploader_eq] at held
    exact ⟨(hr.leased u (uploaderOf_of_holdsLease held)).1.1, fun v hne => refused_of_accepted hu hne⟩
  · obtain ⟨hno, -⟩ | ⟨-, held, keys, hdrop⟩ := completeSourceMaps_cases cfg now c u p.state
    · rw [hs] at hno
      cases hno
    rw [hs] at hdrop
    obtain ⟨⟨htaker, hown⟩, hmaps⟩ := hr.leased u (uploaderOf_of_holdsLease held)
    refine ⟨htaker, hown, _, JsMap.get?_set_self _ _ _, rfl, fun path => ?_, ?_⟩
    · rw [← hmaps]
      exact maps_sourceMapSetOrNew c.serviceId c.commitSha path
    · obtain rfl : s = _ := hdrop
      obtain ⟨hset, -⟩ | ⟨hset, -⟩ := dropSourceMaps_cases keys _ c.key
      · exact Or.inr hset
      · exact Or.inl (hset.trans (JsMap.get?_set_self _ _ _))
  · refine ⟨hr.completed hcomplete, fun scope r => completeSet_handle hi hcomplete, ?_, ?_⟩
    · obtain ⟨_, _, _, _, _, hframe⟩ := frame_expireDueProbes cfg now p.state
      rw [hframe]
    · exact fun n b t hb => sourceMapSets_loadSnapshot hi hb t

end Commit

/-! ### Two uploaders -/

namespace Sample

def release : Commit := ⟨scope, js "api", js "0123456"⟩

def sourceMap (uploaderId mapPath : JsString) : SourceMapUpload where
  serviceId := js "api"
  commitSha := js "0123456"
  uploaderId
  mapPath
  map := [(js "file", .str mapPath)]

def claimRelease (now : ℕ) (uploaderId : JsString) : ProcessEvent :=
  .request now scope (.sourceMapStatus (js "api") (js "0123456") uploaderId)

def uploadRelease (now : ℕ) (uploaderId mapPath : JsString) : ProcessEvent :=
  .request now scope (.uploadSourceMap (sourceMap uploaderId mapPath))

/-- The first uploader stops after a map; its lease expires and another begins. -/
def handover : List ProcessEvent :=
  [claimRelease 0 (js "first"), uploadRelease 1 (js "first") (js "a.js.map"),
    claimRelease 120001 (js "second"), uploadRelease 120002 (js "second") (js "b.js.map")]

def handedOver : History (Commit → UploadLog) :=
  handover.foldl (History.next config (rememberUploads config)) { memory := fun _ => {} }

theorem handedOver_reached :
    Reached (History.next config (rememberUploads config)) (fun _ e => Process.Valid e)
      { memory := fun _ => {} } handedOver := by
  have hs : serviceIdSchema (js "api") = some (js "api") := by decide
  have hc : sourceCommitSchema (js "0123456") = some (js "0123456") := by decide
  have hf : agentIdSchema (js "first") = some (js "first") := by decide
  have hg : agentIdSchema (js "second") = some (js "second") := by decide
  have ha : Broker.sourceMapPathSchema (js "a.js.map") = some (js "a.js.map") := by decide
  have hb : Broker.sourceMapPathSchema (js "b.js.map") = some (js "b.js.map") := by decide
  exact Reached.foldl .init ⟨⟨hs, hc, hf⟩, ⟨hs, hc, hf, ha⟩, ⟨hs, hc, hg⟩, ⟨hs, hc, hg, hb⟩, trivial⟩

/-- The set the second uploader completes holds its own map only. -/
theorem sourceMaps_handedOver :
    (handedOver.memory release).accepted.map (·.mapPath) = [js "b.js.map"] ∧
      ∃ set, (handedOver.state.markComplete 120003 release.serviceId release.commitSha
          release.scope).sourceMapSets.get? release.key = some set ∧
        set.complete = true ∧
        ∀ path, (set.maps.get? path).map (·.map) =
          UploadLog.latest (handedOver.memory release).accepted path := by
  have hc : sourceCommitSchema release.commitSha = some release.commitSha := by decide
  have hok : (handedOver.state.completeSourceMaps config 120003 release.serviceId release.commitSha
      (js "second") release.scope).2.isOk = true := by
    decide
  refine ⟨by decide, ?_⟩
  rcases hr : handedOver.state.completeSourceMaps config 120003 release.serviceId
    release.commitSha (js "second") release.scope with ⟨s, e | ⟨⟩⟩
  · rw [hr] at hok
    cases hok
  · obtain ⟨-, -, set, hset, hcomplete, hmaps, -⟩ :=
      (Commit.sourceMaps_of_uploader handedOver_reached hc 120003).2.2.1 (js "second") s hr
    exact ⟨set, hset, hcomplete, hmaps⟩

end Sample
