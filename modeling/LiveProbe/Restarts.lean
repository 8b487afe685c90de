/-
LiveProbe/Restarts.lean

A broker whose mutations are written to PostgreSQL one by one, and that may
crash at any point.

What expires outside the sweep is not written: the tables hold a probe as live
that has expired in memory.  It is due, so a restart expires it again and
raises the version of its service again.  A restarted broker therefore has the
probes the crashed one had, under versions that are no lower (`restart_recovers`),
except for the versions that were raised by a completed source-map set or by a
create that failed, which no persist call writes.
-/
import LiveProbe.PostgresRows
import LiveProbe.View

open JsString Broker Protocol BrokerState

/-! ### The server -/

/-- `persistSourceMapSet` on the set of the state. -/
def BrokerState.persistSourceMapSet (now : ℕ) (scope : ResourceScope) (serviceId commitSha : JsString) (s : BrokerState)
    (d : Tables) : Option Tables :=
  match s.getSourceMapSet serviceId commitSha scope with
  | none => some d
  | some set => (s.snapshot now).map fun b => d.persistSourceMapSet set b

section

variable (cfg : Config) (db : Postgres) (now : ℕ)

/-- The persist call of a request; `s` is the state it has left. -/
def Request.persist (scope : ResourceScope) (s : BrokerState) (r : Request) (response : Response) (d : Tables) :
    Option Tables :=
  match r with
  | .createProbe .. =>
    match response with
    | .created (.ok probe) => (s.snapshot now).bind fun b => d.persistProbe db b probe.id scope
    | _ => some d
  | .deleteProbe id => (s.snapshot now).bind fun b => d.deleteProbe db b id scope
  | .uploadSourceMap input => s.persistSourceMapSet now scope input.serviceId input.commitSha d
  | .completeSourceMaps serviceId commitSha _ => s.persistSourceMapSet now scope serviceId commitSha d
  | .ingest input => (s.snapshot now).bind fun b => d.persistIngest db b input scope
  | .registerNativeAgent input => (s.snapshot now).bind fun b => d.persistNativeAgent db b input.agentId scope
  | .replaceNativeInstances agentId _ _ => (s.snapshot now).bind fun b => d.persistNativeInstances db b agentId scope
  | .ingestNative input => (s.snapshot now).bind fun b => d.persistNativeIngest db b input scope
  | _ => some d

/-- The requests that raise no version and take no probe in or out. -/
def Request.plain : Request → Bool
  | .createProbe .. | .deleteProbe _ | .completeSourceMaps .. => false
  | _ => true

namespace QueueTask

/-- The persist call of a task that runs on `s`. -/
def persist (s : BrokerState) : QueueTask → Tables → Option Tables
  | request scope r => r.persist db now scope (s.handle cfg now scope r).1 (s.handle cfg now scope r).2
  | sweep => fun d => ((s.expireDueProbes cfg now).snapshot now).bind fun b => d.persist db b

/-- The services whose versions were raised and not written, after a task that runs on `s`. -/
def owed (s : BrokerState) (task : QueueTask) (owed : List (ResourceScope × JsString)) :
    List (ResourceScope × JsString) :=
  match task with
  | sweep => if (task.run cfg now s).2 then [] else owed
  | request _ (.deleteProbe _) => []
  | request scope (.createProbe _ input) =>
    if (task.run cfg now s).2 then owed.filter (· ≠ (scope, input.serviceId))
    else if (task.run cfg now s).1.serviceVersion scope input.serviceId = s.serviceVersion scope input.serviceId then owed
    else (scope, input.serviceId) :: owed
  | request scope (.completeSourceMaps serviceId _ _) =>
    if (task.run cfg now s).2 then (scope, serviceId) :: owed else owed
  | request _ _ => owed

end QueueTask

end

/-- A mutation whose transaction is under way. -/
structure Transaction where
  before : BrokerSnapshot
  write : Tables → Option Tables
  owed : List (ResourceScope × JsString)

/-- The broker and its database.  What the statements below speak of is recorded
besides: the latest clock value read, and the services whose versions were
raised since they were last written. -/
structure Backed where
  state : BrokerState := {}
  tables : Tables := {}
  pending : Option Transaction := none
  clock : ℕ := 0
  owed : List (ResourceScope × JsString) := []

inductive BackedEvent
  /-- A request that does not go through the queue. -/
  | call (now : ℕ) (scope : ResourceScope) (r : Request)
  /-- The set that `sourceMapStatus` has cleared is written. -/
  | cleared (now : ℕ) (scope : ResourceScope) (serviceId commitSha : JsString)
  /-- The queue takes up a task. -/
  | start (now : ℕ) (task : QueueTask)
  | committed
  | rejected (now : ℕ)
  /-- The broker closes, and everything is written. -/
  | closed (now : ℕ)
  /-- The broker has crashed or closed, and a fresh one restores the tables. -/
  | restart (now : ℕ)

namespace Backed

variable {cfg : Config} {db : Postgres} {now : ℕ}

def next (cfg : Config) (db : Postgres) (v : Backed) : BackedEvent → Backed
  | .call now scope r =>
    if r.durable then v else { v with state := (v.state.handle cfg now scope r).1, clock := max v.clock now }
  | .cleared now scope serviceId commitSha =>
    match v.state.persistSourceMapSet now scope serviceId commitSha v.tables with
    | none => v
    | some d => { v with tables := d }
  | .start now task =>
    match v.pending, v.state.snapshot now with
    | none, some before =>
      let v' := { v with state := (task.run cfg now v.state).1, clock := max v.clock now }
      let owed := task.owed cfg now v.state v.owed
      if (task.run cfg now v.state).2 then { v' with pending := some ⟨before, task.persist cfg db now v.state, owed⟩ }
      else { v' with owed }
    | _, _ => v
  | .committed =>
    match v.pending with
    | none => v
    | some p =>
      match p.write v.tables with
      | none => v
      | some d => { v with tables := d, pending := none, owed := p.owed }
  | .rejected now =>
    match v.pending with
    | none => v
    | some p =>
      { v with state := (v.state.loadSnapshot cfg now p.before).1, pending := none, clock := max v.clock now }
  | .closed now =>
    match v.pending, (v.state.snapshot now).bind fun b => v.tables.persist db b with
    | none, some d => { v with tables := d, owed := [] }
    | _, _ => v
  | .restart now =>
    match v.tables.restore cfg db now with
    | none => v
    | some s => { v with state := s, pending := none, clock := max v.clock now, owed := [] }

/-- The requests have passed the schemas of their routes. -/
def Valid : BackedEvent → Prop
  | .call _ _ r => r.Valid
  | .start _ (.request _ r) => r.Valid
  | _ => True

end Backed

/-! ### What the tables lag behind -/

/-- The row of a probe as it is in memory, or as it was before it expired. -/
inductive Lags (clock : ℕ) : Option StoredProbe → Option StoredProbe → Prop
  | none : Lags clock none none
  | same (row : StoredProbe) : Lags clock (some row) (some row)
  | expired (row : StoredProbe) (due : row.due clock = true) : Lags clock (some row) (some row.markExpired)

theorem StoredProbe.due_mono {p : StoredProbe} {n m : ℕ} (h : p.due n = true) (hle : n ≤ m) : p.due m = true := by
  simp only [due, Bool.and_eq_true, decide_eq_true_eq] at h ⊢
  exact ⟨h.1, h.2.trans hle⟩

namespace Lags

variable {clock n : ℕ} {row p : Option StoredProbe}

theorem mono (h : Lags clock row p) (hle : clock ≤ n) : Lags n row p := by
  cases h with
  | none => exact .none
  | same row => exact .same row
  | expired row due => exact .expired row (StoredProbe.due_mono due hle)

/-- Another expiry in memory. -/
theorem expire (h : Lags clock row p) (now : ℕ) : Lags (max clock now) row (p.map (·.expire now)) := by
  cases h with
  | none => exact .none
  | same row =>
    show Lags _ _ (some (row.expire now))
    rw [StoredProbe.expire]
    split
    · exact .expired row (StoredProbe.due_mono ‹_› (le_max_right _ _))
    · exact .same row
  | expired row due => exact .expired row (StoredProbe.due_mono due (le_max_left _ _))

/-- Both go or both stay. -/
theorem filter (h : Lags clock row p) {f : StoredProbe → Bool} (hf : ∀ p, f (StoredProbe.markExpired p) = f p) :
    Lags clock (row.filter f) (p.filter f) := by
  cases h with
  | none => exact .none
  | same row =>
    rcases hrow : f row with - | -
    · rw [Option.filter_some_neg hrow]
      exact .none
    · rw [Option.filter_some_pos hrow]
      exact .same row
  | expired row due =>
    rcases hrow : f row with - | -
    · rw [Option.filter_some_neg hrow, Option.filter_some_neg ((hf row).trans hrow)]
      exact .none
    · rw [Option.filter_some_pos hrow, Option.filter_some_pos ((hf row).trans hrow)]
      exact .expired row due

/-- From the clock on, both expire to the same. -/
theorem expire_eq (h : Lags clock row p) (hle : clock ≤ n) : p.map (·.expire n) = row.map (·.expire n) := by
  cases h with
  | none => rfl
  | same row => rfl
  | expired row due =>
    show some row.markExpired = some (row.expire n)
    rw [StoredProbe.expire, if_pos (StoredProbe.due_mono due hle)]

end Lags

namespace Tables

/-- The version that is stored for a service. -/
def version (d : Tables) (sc : ResourceScope) (sv : JsString) : ℕ :=
  ((d.serviceVersions.get? (sc, sv)).map (·.version)).getD 0

/-- The live probes that are due, as they are stored. -/
def dueCount (d : Tables) (n : ℕ) (sc : ResourceScope) (sv : JsString) : ℕ :=
  d.probes.probes.values.countP fun p => p.liveIn sc sv && p.due n

end Tables

/-- The state has what the tables have, but for probes that have expired since
and the versions they have raised. -/
structure Backs (clock : ℕ) (d : Tables) (owed : List (ResourceScope × JsString)) (s : BrokerState) : Prop where
  rows : ∀ id, Lags clock (d.probes.probes.get? id) (s.probes.get? id)
  versions : ∀ n, clock ≤ n → ∀ sc sv,
    ((s.view sc sv).expire n).version ≤ d.version sc sv + d.dueCount n sc sv + owed.count (sc, sv)

namespace Backs

variable {cfg : Config} {now clock : ℕ} {d d' : Tables} {owed : List (ResourceScope × JsString)} {s t : BrokerState}

theorem init : Backs 0 {} [] {} where
  rows _ := .none
  versions _ _ _ _ := le_rfl

theorem mono (h : Backs clock d owed s) {n : ℕ} (hle : clock ≤ n) : Backs n d owed s :=
  ⟨fun id => (h.rows id).mono hle, fun m hm => h.versions m (hle.trans hm)⟩

theorem of_core (h : Backs clock d owed s) (hcore : d'.core = d.core) : Backs clock d' owed s := by
  obtain ⟨hp, hv⟩ := Prod.mk.inj hcore
  refine ⟨fun id => hp ▸ h.rows id, fun n hn sc sv => ?_⟩
  have hversion : d'.version sc sv = d.version sc sv := by rw [Tables.version, Tables.version, hv]
  have hdue : d'.dueCount n sc sv = d.dueCount n sc sv := by rw [Tables.dueCount, Tables.dueCount, hp]
  rw [hversion, hdue]
  exact h.versions n hn sc sv

theorem expire (h : Backs clock d owed s) (cfg : Config) (now : ℕ) :
    Backs (max clock now) d owed (s.expireDueProbes cfg now) := by
  refine ⟨fun id => ?_, fun n hn sc sv => ?_⟩
  · rw [probes_expireDueProbes, JsMap.get?_mapVals]
    exact (h.rows id).expire now
  · rw [view_expireDueProbes, ServiceView.expire_expire, max_eq_right ((le_max_right _ _).trans hn)]
    exact h.versions n ((le_max_left _ _).trans hn) sc sv

/-- A live probe in memory is live in the tables. -/
theorem dueCount_le (hrows : ∀ id, Lags clock (d.probes.probes.get? id) (s.probes.get? id)) (n : ℕ) (sc : ResourceScope)
    (sv : JsString) : ((s.view sc sv).live.filter (·.due n)).length ≤ d.dueCount n sc sv := by
  show ((s.probes.values.filter (StoredProbe.liveIn sc sv)).filter (·.due n)).length ≤ _
  rw [List.filter_filter, ← List.countP_eq_length_filter]
  refine JsMap.countP_values_le fun id p hp hlive => ?_
  have hrow := hrows id
  rw [hp] at hrow
  generalize hget : d.probes.probes.get? id = row at hrow
  cases hrow with
  | same => exact ⟨p, hget, Bool.and_comm _ _ ▸ hlive⟩
  | expired row due =>
    rw [Bool.and_eq_true] at hlive
    cases hlive.1

/-- The tables hold the versions. -/
theorem of_written (hrows : ∀ id, Lags clock (d.probes.probes.get? id) (s.probes.get? id)) {n : ℕ} {sc : ResourceScope}
    {sv : JsString} (hversion : s.serviceVersion sc sv ≤ d.version sc sv) (k : ℕ) :
    ((s.view sc sv).expire n).version ≤ d.version sc sv + d.dueCount n sc sv + k :=
  (Nat.add_le_add hversion (dueCount_le hrows n sc sv)).trans (Nat.le_add_right _ _)

/-- A version is raised that is not written. -/
theorem raise (h : Backs clock d owed s) {scope : ResourceScope} {serviceId : JsString} (hprobes : t.probes = s.probes)
    (hversion : ∀ sc sv, t.serviceVersion sc sv = s.serviceVersion sc sv + if scope = sc ∧ serviceId = sv then 1 else 0) :
    Backs clock d ((scope, serviceId) :: owed) t := by
  refine ⟨fun id => hprobes ▸ h.rows id, fun n hn sc sv => ?_⟩
  have hlive : (t.view sc sv).live = (s.view sc sv).live := by
    show t.probes.values.filter _ = s.probes.values.filter _
    rw [hprobes]
  have hle := h.versions n hn sc sv
  show t.serviceVersion sc sv + ((t.view sc sv).live.filter (·.due n)).length ≤ _
  have hle : s.serviceVersion sc sv + ((s.view sc sv).live.filter (·.due n)).length ≤ _ := hle
  rw [hlive, hversion, List.count_cons]
  have hcount : (if ((scope, serviceId) == (sc, sv)) = true then 1 else 0) =
      if scope = sc ∧ serviceId = sv then 1 else 0 := by
    simp only [beq_iff_eq, Prod.mk.injEq]
  rw [hcount]
  omega

/-! ### Requests -/

theorem change (h : Backs clock d owed s) (hs : Indexed s) {scope : ResourceScope} {r : Request} (hv : r.Valid)
    (hplain : r.plain = true) (hc : Change cfg now scope r s t) : Backs (max clock now) d owed t := by
  have hraised : s.raised scope r = [] := by
    cases r with
    | createProbe | deleteProbe | completeSourceMaps => cases hplain
    | _ => rfl
  refine ⟨fun id => ?_, fun n hn sc sv => ?_⟩
  · rcases probes_change hc with hsame | rfl | ⟨_, _, _, _, _, rfl, -⟩ | ⟨_, _, rfl, -⟩
    · rw [hsame]
      exact (h.rows id).mono (le_max_left _ _)
    · exact (h.expire cfg now).rows id
    · cases hplain
    · cases hplain
  · have hview := Change.view sc sv hs hv hc
    rw [hraised] at hview
    generalize t.view sc sv = w at hview ⊢
    cases hview with
    | same => exact h.versions n ((le_max_left _ _).trans hn) sc sv
    | expire =>
      rw [ServiceView.expire_expire, max_eq_right ((le_max_right _ _).trans hn)]
      exact h.versions n ((le_max_left _ _).trans hn) sc sv
    | raise hmem => cases hmem

theorem handle (h : Backs clock d owed s) (hs : Indexed s) {scope : ResourceScope} {r : Request} (hv : r.Valid)
    (hplain : r.plain = true) (cfg : Config) (now : ℕ) : Backs (max clock now) d owed (s.handle cfg now scope r).1 := by
  have hchanges := handle_changes cfg now scope r s
  generalize (s.handle cfg now scope r).1 = t at hchanges ⊢
  suffices hboth : Indexed t ∧ Backs (max clock now) d owed t from hboth.2
  induction hchanges with
  | refl => exact ⟨hs, h.mono (le_max_left _ _)⟩
  | tail _ hc ih =>
    have hnext := ih.2.change ih.1 hv hplain hc
    rw [max_assoc, max_self] at hnext
    exact ⟨ih.1.change hv hc, hnext⟩

theorem of_state (h : Backs clock d owed s) (hprobes : t.probes = s.probes)
    (hversions : t.serviceVersions = s.serviceVersions) : Backs clock d owed t := by
  refine ⟨fun id => hprobes ▸ h.rows id, fun n hn sc sv => ?_⟩
  have hlive : (t.view sc sv).live = (s.view sc sv).live := by
    show t.probes.values.filter _ = s.probes.values.filter _
    rw [hprobes]
  have hversion : t.serviceVersion sc sv = s.serviceVersion sc sv := by
    rw [serviceVersion, serviceVersion, hversions]
  have hle : s.serviceVersion sc sv + ((s.view sc sv).live.filter (·.due n)).length ≤ _ := h.versions n hn sc sv
  show t.serviceVersion sc sv + ((t.view sc sv).live.filter (·.due n)).length ≤ _
  rw [hlive, hversion]
  exact hle

end Backs

/-! ### What is written -/

section

variable {cfg : Config} {db : Postgres} {now clock : ℕ} {d d' : Tables} {owed : List (ResourceScope × JsString)}
  {s t : BrokerState} {b : BrokerSnapshot} {scope sc : ResourceScope} {sv : JsString}

theorem snapshot_core (hs : Indexed s) (hb : s.snapshot now = some b) :
    b.probes = s.probes.values ∧ b.serviceVersions = s.serviceVersions.values := by
  have h := snapshotSchema_eq_some.mp hb
  have kept {α : Type} {P : JsString → α → Prop} {sch : Schema α} {m : JsMap JsString α} (hm : m.All P)
      (hP : ∀ k v, P k v → Schema.Kept sch v) : Schema.Kept (Schema.array sch) m.values := by
    refine Schema.Kept.array fun v hv => ?_
    obtain ⟨k, hk⟩ := JsMap.mem_values_iff.mp hv
    exact hP k v (hm k v (JsMap.get?_eq_some_iff.mpr hk))
  exact ⟨kept hs.probes (fun _ _ => ProbeIndexed.kept) h.probes,
    kept hs.serviceVersions (fun _ _ => VersionIndexed.kept) h.serviceVersions⟩

/-- Every probe has its identifier. -/
theorem nodup_probeIds (hs : Indexed s) : (s.probes.values.map (·.probe.id)).Nodup := by
  have hkeys : s.probes.values.map (·.probe.id) = s.probes.keys := by
    rw [JsMap.values, JsMap.keys, List.map_map]
    refine List.map_congr_left fun e he => ?_
    exact (hs.probes e.1 e.2 (JsMap.get?_eq_some_iff.mpr he)).1.symm
  rw [hkeys]
  exact s.probes.nodup

theorem nodup_services (hs : Indexed s) : (s.serviceVersions.values.map fun v => (v.scope, v.serviceId)).Nodup := by
  refine List.Nodup.of_map (fun e => serviceKey e.1 e.2) ?_
  have hkeys : (s.serviceVersions.values.map fun v => (v.scope, v.serviceId)).map (fun e => serviceKey e.1 e.2) =
      s.serviceVersions.keys := by
    rw [JsMap.values, JsMap.keys, List.map_map, List.map_map]
    refine List.map_congr_left fun e he => ?_
    exact (hs.serviceVersions e.1 e.2 (JsMap.get?_eq_some_iff.mpr he)).1.symm
  rw [hkeys]
  exact s.serviceVersions.nodup

/-- The version of a service whose row is inserted. -/
theorem version_written (hs : Indexed s) {rows : List ScopedServiceVersion} (hrows : rows.Sublist s.serviceVersions.values)
    (hd : d'.serviceVersions = d.serviceVersions.upsertAll .overwrite rows)
    (hmem : ∀ v, s.serviceVersions.get? (serviceKey sc sv) = some v → v ∈ rows) :
    s.serviceVersion sc sv ≤ d'.version sc sv := by
  rcases hget : s.serviceVersions.get? (serviceKey sc sv) with - | v
  · rw [serviceVersion, hget]
    exact Nat.zero_le _
  · obtain ⟨hkey, -⟩ := hs.serviceVersions _ v hget
    obtain ⟨rfl, rfl⟩ := serviceKey_inj.mp hkey
    have hwritten : d'.serviceVersions.get? (v.scope, v.serviceId) = some v := by
      rw [hd]
      exact Table.get?_upsertAll_overwrite ((nodup_services hs).sublist (hrows.map _)) (hmem v hget)
    rw [serviceVersion, hget, Tables.version, hwritten]

/-- `persist` writes all there is. -/
theorem Backs.persist (h : Backs clock d owed s) (hs : Indexed s) (hb : s.snapshot now = some b)
    (hw : d.persist db b = some d') : Backs clock d' [] s := by
  obtain ⟨hprobes, hversions⟩ := snapshot_core hs hb
  obtain ⟨hdp, hdv⟩ := Prod.mk.inj (Tables.core_persist hw)
  rw [hprobes] at hdp
  rw [hversions] at hdv
  have hrows (id : JsString) : Lags clock (d'.probes.probes.get? id) (s.probes.get? id) := by
    rw [hdp]
    rcases hget : s.probes.get? id with - | p
    · have hrow := h.rows id
      rw [hget] at hrow
      rw [Table.get?_upsertAll_of_notMem]
      · exact hrow
      · intro hmem
        obtain ⟨p, hp, rfl⟩ := List.mem_map.mp hmem
        obtain ⟨k, hk⟩ := JsMap.mem_values_iff.mp hp
        have hk := JsMap.get?_eq_some_iff.mpr hk
        rw [(hs.probes k p hk).1, hget] at hk
        cases hk
    · obtain ⟨rfl, -⟩ := hs.probes id p hget
      rw [Table.get?_upsertAll_overwrite (nodup_probeIds hs) (JsMap.mem_values_iff.mpr ⟨_, JsMap.get?_eq_some_iff.mp hget⟩)]
      exact .same p
  refine ⟨hrows, fun n _ sc sv => of_written hrows ?_ _⟩
  exact version_written hs (List.Sublist.refl _) hdv fun v hv => JsMap.mem_values_iff.mpr ⟨_, JsMap.get?_eq_some_iff.mp hv⟩

theorem get?_deleteProbe (hs : Indexed s) (id id' : JsString) :
    (s.deleteProbe now id scope).1.probes.get? id' =
      (s.probes.get? id').filter fun p => !(p.probe.id = id && p.scope = scope) := by
  have hkept {p : StoredProbe} (hp : s.probes.get? id' = some p) (h : id' ≠ id ∨ p.scope ≠ scope) :
      (s.probes.get? id').filter (fun p => !(p.probe.id = id && p.scope = scope)) = s.probes.get? id' := by
    rw [hp]
    refine Option.filter_some_pos ?_
    rw [← (hs.probes id' p hp).1]
    rcases h with h | h <;> simp [h]
  have hkept' (h : ∀ p, s.probes.get? id' = some p → id' ≠ id ∨ p.scope ≠ scope) :
      s.probes.get? id' = (s.probes.get? id').filter fun p => !(p.probe.id = id && p.scope = scope) := by
    rcases hp : s.probes.get? id' with - | p
    · rfl
    · rw [← hp]
      exact (hkept hp (h p hp)).symm
  unfold BrokerState.deleteProbe
  rcases hget : s.probes.get? id with - | stored
  · refine hkept' fun p hp => .inl ?_
    rintro rfl
    rw [hget] at hp
    cases hp
  · dsimp only
    split
    · rename_i hown
      have hprobes : (removeProbe now id (if stored.expired then s
          else s.incrementServiceVersion stored.probe.serviceId stored.scope)).probes = s.probes.delete id := by
        show (ite _ _ _ : BrokerState).probes.delete id = _
        split <;> rfl
      show (removeProbe now id _).probes.get? id' = _
      rw [hprobes]
      by_cases hid : id' = id
      · subst hid
        rw [JsMap.get?_delete_self, hget, Option.filter_some_neg]
        simp [← (hs.probes id' stored hget).1, hown]
      · rw [JsMap.get?_delete_of_ne hid]
        exact hkept' fun _ _ => .inl hid
    · rename_i hforeign
      refine hkept' fun p hp => ?_
      by_cases hid : id' = id
      · subst hid
        rw [hget] at hp
        cases hp
        exact .inr hforeign
      · exact .inl hid

/-- `deleteProbe` takes out the row of the probe, if it is the scope's, and writes all versions. -/
theorem Backs.deleteProbe (h : Backs clock d owed s) (hs : Indexed s) {id : JsString}
    (ht : Indexed (s.deleteProbe now id scope).1) {n : ℕ} (hb : (s.deleteProbe now id scope).1.snapshot n = some b)
    (hw : d.deleteProbe db b id scope = some d') : Backs clock d' [] (s.deleteProbe now id scope).1 := by
  obtain ⟨-, hversions⟩ := snapshot_core ht hb
  obtain ⟨hdp, hdv⟩ := Prod.mk.inj (Tables.core_deleteProbe hw)
  rw [hversions] at hdv
  have hrows (id' : JsString) : Lags clock (d'.probes.probes.get? id') ((s.deleteProbe now id scope).1.probes.get? id') := by
    rw [hdp, Table.get?_deleteWhere, get?_deleteProbe hs]
    exact (h.rows id').filter fun _ => rfl
  refine ⟨hrows, fun n _ sc sv => of_written hrows ?_ _⟩
  exact version_written ht (List.Sublist.refl _) hdv fun v hv => JsMap.mem_values_iff.mpr ⟨_, JsMap.get?_eq_some_iff.mp hv⟩

/-- What `createProbe` comes to. -/
theorem createProbe_cases (cfg : Config) (now : ℕ) (draws : ℕ → JsString) (input : CreateProbeInput)
    (scope : ResourceScope) (s : BrokerState) :
    ∃ t, t.core = s.core ∧
      ((s.createProbe cfg now draws input scope).1 = t ∧ (∃ e, (s.createProbe cfg now draws input scope).2 = .error e) ∨
        (s.createProbe cfg now draws input scope).1 = t.incrementServiceVersion input.serviceId scope ∧
          (∃ e, (s.createProbe cfg now draws input scope).2 = .error e) ∨
        ∃ compiled id probe, compileProbeInput cfg.jsep input = .ok compiled ∧ t.drawProbeId draws = some id ∧
          probeDefinitionSchema (newDefinition compiled id (t.serviceVersion scope input.serviceId + 1)) = some probe ∧
          (s.createProbe cfg now draws input scope).1 =
            (t.incrementServiceVersion input.serviceId scope).insertProbe now scope probe ∧
          (s.createProbe cfg now draws input scope).2 = .ok probe) := by
  unfold createProbe
  split
  · exact ⟨s, rfl, .inl ⟨rfl, _, rfl⟩⟩
  · rename_i compiled hcompiled
    refine ⟨s.refreshServiceCapabilities now scope input.serviceId, core_refreshServiceCapabilities _, ?_⟩
    dsimp only
    split
    · exact .inl ⟨rfl, _, rfl⟩
    · split
      · exact .inl ⟨rfl, _, rfl⟩
      · rename_i id hdrawn
        split
        · split
          · exact .inr (.inl ⟨rfl, _, rfl⟩)
          · rename_i probe hparsed
            exact .inr (.inr ⟨compiled, id, probe, hcompiled, hdrawn, hparsed, rfl, rfl⟩)
        · exact .inl ⟨rfl, _, rfl⟩

/-- A new probe shows in the view of its own service alone. -/
theorem view_create_other (now : ℕ) {serviceId : JsString} {probe : ProbeDefinition} (hcore : t.core = s.core)
    (hfresh : t.probes.has probe.id = false) (hservice : probe.serviceId = serviceId)
    (hne : ¬(scope = sc ∧ serviceId = sv)) :
    ((t.incrementServiceVersion serviceId scope).insertProbe now scope probe).view sc sv = s.view sc sv := by
  rw [← view_of_core hcore]
  refine Eq.trans (ServiceView.mk.injEq .. |>.mpr ⟨rfl, live_insert hfresh ?_, rfl⟩) (view_increment_other hne)
  simp only [StoredProbe.liveIn, hservice]
  rcases not_and_or.mp hne with h | h <;> simp [h]

/-- The one row `persistProbe` finds. -/
theorem filter_probe (hs : Indexed s) {p : StoredProbe} (hp : s.probes.get? p.probe.id = some p) :
    (s.probes.values.filter fun q => q.probe.id = p.probe.id && q.scope = p.scope) = [p] := by
  generalize hrows : (s.probes.values.filter fun q => q.probe.id = p.probe.id && q.scope = p.scope) = rows
  have hnodup : rows.Nodup := by
    rw [← hrows]
    exact (nodup_probeIds hs).of_map.filter _
  have hall (q : StoredProbe) (hq : q ∈ rows) : q = p := by
    rw [← hrows] at hq
    obtain ⟨hmem, hid⟩ := List.mem_filter.mp hq
    obtain ⟨k, hk⟩ := JsMap.mem_values_iff.mp hmem
    have hk := JsMap.get?_eq_some_iff.mpr hk
    simp only [Bool.and_eq_true, decide_eq_true_eq] at hid
    rw [(hs.probes k q hk).1, hid.1, hp] at hk
    exact (Option.some.inj hk).symm
  have hmem : p ∈ rows := by
    rw [← hrows]
    refine List.mem_filter.mpr ⟨JsMap.mem_values_iff.mpr ⟨_, JsMap.get?_eq_some_iff.mp hp⟩, ?_⟩
    rw [decide_eq_true rfl, decide_eq_true rfl]
    rfl
  rcases rows with - | ⟨q, - | ⟨r, rows⟩⟩
  · cases hmem
  · rw [hall q List.mem_cons_self]
  · have hq := hall q List.mem_cons_self
    have hr := hall r (List.mem_cons_of_mem q List.mem_cons_self)
    exact absurd (hq.trans hr.symm) (List.ne_of_not_mem_cons (List.nodup_cons.mp hnodup).1)

/-- A fresh probe is written, and the version of its service. -/
theorem Backs.inserted (h : Backs clock d owed s) {p : StoredProbe} (hfresh : s.probes.get? p.probe.id = none)
    (ht : Indexed t) (hprobes : t.probes = s.probes.set p.probe.id p)
    (hview : ∀ sc sv, ¬(p.scope = sc ∧ p.probe.serviceId = sv) → t.view sc sv = s.view sc sv)
    (hcore : d'.core = (d.probes.probes.upsertAll .overwrite [p], d.serviceVersions.upsertAll .overwrite
      (t.serviceVersions.values.filter fun v => v.serviceId = p.probe.serviceId && v.scope = p.scope))) :
    Backs clock d' (owed.filter (· ≠ (p.scope, p.probe.serviceId))) t := by
  obtain ⟨hdp, hdv⟩ := Prod.mk.inj hcore
  have hput : d'.probes.probes.get? p.probe.id = some p := by
    rw [hdp]
    exact Table.get?_upsertAll_overwrite (List.nodup_singleton _) (List.mem_singleton_self p)
  have hother {id : JsString} (hid : id ≠ p.probe.id) : d'.probes.probes.get? id = d.probes.probes.get? id := by
    rw [hdp, Table.get?_upsertAll_of_notMem]
    exact fun hmem => hid (List.mem_singleton.mp hmem)
  have hrows (id : JsString) : Lags clock (d'.probes.probes.get? id) (t.probes.get? id) := by
    rw [hprobes]
    by_cases hid : id = p.probe.id
    · subst hid
      rw [JsMap.get?_set_self, hput]
      exact .same p
    · rw [hother hid, JsMap.get?_set_of_ne hid]
      exact h.rows id
  refine ⟨hrows, fun n hn sc sv => ?_⟩
  by_cases hne : p.scope = sc ∧ p.probe.serviceId = sv
  · obtain ⟨rfl, rfl⟩ := hne
    refine of_written hrows (version_written ht List.filter_sublist hdv fun v hv => ?_) _
    obtain ⟨hkey, -⟩ := ht.serviceVersions _ v hv
    obtain ⟨hscope, hservice⟩ := serviceKey_inj.mp hkey
    refine List.mem_filter.mpr ⟨JsMap.mem_values_iff.mpr ⟨_, JsMap.get?_eq_some_iff.mp hv⟩, ?_⟩
    rw [hscope, hservice, decide_eq_true rfl, decide_eq_true rfl]
    rfl
  · have hversion : d'.version sc sv = d.version sc sv := by
      rw [Tables.version, Tables.version, hdv, Table.get?_upsertAll_of_notMem]
      intro hmem
      obtain ⟨v, hv, heq⟩ := List.mem_map.mp hmem
      obtain ⟨h₁, h₂⟩ := Prod.mk.inj heq
      have hv := List.of_mem_filter hv
      simp only [Bool.and_eq_true, decide_eq_true_eq] at hv
      exact hne ⟨hv.2.symm.trans h₁, hv.1.symm.trans h₂⟩
    -- the tables had no row under the identifier
    have hdue : d.dueCount n sc sv ≤ d'.dueCount n sc sv := by
      refine JsMap.countP_values_le fun id q hq hcounts => ⟨q, ?_, hcounts⟩
      have hq : d.probes.probes.get? id = some q := hq
      refine (hother fun hid => ?_).trans hq
      have hlags := h.rows id
      rw [hid, hfresh, ← hid, hq] at hlags
      cases hlags
    have hcount : (owed.filter (· ≠ (p.scope, p.probe.serviceId))).count (sc, sv) = owed.count (sc, sv) := by
      refine List.count_filter (decide_eq_true fun heq => hne ?_)
      obtain ⟨h₁, h₂⟩ := Prod.mk.inj heq
      exact ⟨h₁.symm, h₂.symm⟩
    rw [hview sc sv hne, hversion, hcount]
    have hle := h.versions n hn sc sv
    omega

/-- `persistProbe` writes the row of the new probe and the version of its service. -/
theorem Backs.createProbe (h : Backs clock d owed s) (hs : Indexed s) {draws : ℕ → JsString} {input : CreateProbeInput}
    (hv : (Request.createProbe draws input).Valid) {probe : ProbeDefinition} {n : ℕ}
    (hcreated : (s.createProbe cfg now draws input scope).2 = .ok probe)
    (hb : (s.createProbe cfg now draws input scope).1.snapshot n = some b)
    (hw : d.persistProbe db b probe.id scope = some d') :
    Backs clock d' (owed.filter (· ≠ (scope, input.serviceId))) (s.createProbe cfg now draws input scope).1 := by
  obtain ⟨t, hcore, ⟨-, _, h'⟩ | ⟨-, _, h'⟩ | ⟨compiled, id, probe', hcompiled, hdrawn, hparsed, hstate, h'⟩⟩ :=
    createProbe_cases cfg now draws input scope s
  · rw [h'] at hcreated
    cases hcreated
  · rw [h'] at hcreated
    cases hcreated
  rw [h'] at hcreated
  cases hcreated
  have hu : Indexed (s.createProbe cfg now draws input scope).1 := hs.handle (r := .createProbe draws input) hv
  obtain ⟨rfl, -, hsid, -⟩ := newDefinition_parsed hparsed
  obtain ⟨_, _, -, -, hcomp⟩ := compileProbeInput_eq_ok hcompiled
  have hservice : probe.serviceId = input.serviceId := by
    rw [hcomp, serviceId_of_createInput hv] at hsid
    exact (Option.some.inj hsid).symm
  have ht : t.probes = s.probes := congrArg Prod.fst hcore
  have hfresh : t.probes.has probe.id = false := drawProbeId_fresh hdrawn
  have hnone : s.probes.get? probe.id = none := by
    rw [← ht]
    exact Option.not_isSome_iff_eq_none.mp (Bool.eq_false_iff.mp hfresh)
  rw [hstate] at hb hu ⊢
  have hview (sc sv) (hne : ¬(scope = sc ∧ input.serviceId = sv)) := view_create_other now hcore hfresh hservice hne
  have hprobes : ((t.incrementServiceVersion input.serviceId scope).insertProbe now scope probe).probes =
      s.probes.set probe.id ⟨scope, probe, now + probe.ttlSeconds * 1000, false⟩ := by
    rw [← ht]
    rfl
  generalize (t.incrementServiceVersion input.serviceId scope).insertProbe now scope probe = u at hb hu hview hprobes ⊢
  obtain ⟨hbp, hbv⟩ := snapshot_core hu hb
  have hfilter := filter_probe hu (p := ⟨scope, probe, now + probe.ttlSeconds * 1000, false⟩) (by
    rw [hprobes]
    exact JsMap.get?_set_self ..)
  rw [← hbp] at hfilter
  have hcore' := Tables.core_persistProbe hfilter hw
  rw [hbv] at hcore'
  rw [← hservice] at hview ⊢
  exact h.inserted hnone hu hprobes hview hcore'

/-- A source-map set is written beside the probes and the versions. -/
theorem persistSourceMapSet_spec (hs : Indexed s) (hd : d.Parsed) {serviceId commitSha : JsString}
    (hw : s.persistSourceMapSet now scope serviceId commitSha d = some d') : d'.Parsed ∧ d'.core = d.core := by
  unfold BrokerState.persistSourceMapSet at hw
  split at hw
  · cases hw
    exact ⟨hd, rfl⟩
  · rename_i set hset
    obtain ⟨b, hb, rfl⟩ := Option.map_eq_some_iff.mp hw
    exact ⟨hd.persistSourceMapSet hs hset hb, rfl⟩

/-- What a request that raises no version writes besides. -/
theorem Request.persist_plain {r : Request} (hplain : r.plain = true) (hs : Indexed s) (hd : d.Parsed) {response : Response}
    (hw : r.persist db now scope s response d = some d') : d'.Parsed ∧ d'.core = d.core := by
  cases r with
  | createProbe | deleteProbe | completeSourceMaps => cases hplain
  | uploadSourceMap input => exact persistSourceMapSet_spec hs hd hw
  | ingest input =>
    obtain ⟨b, hb, hw⟩ := Option.bind_eq_some_iff.mp hw
    exact ⟨hd.persistIngest (Tables.reads_of_snapshot hb) hw, Tables.core_persistIngest hw⟩
  | registerNativeAgent input =>
    obtain ⟨b, hb, hw⟩ := Option.bind_eq_some_iff.mp hw
    exact ⟨hd.persistNativeAgent (Tables.reads_of_snapshot hb) hw, Tables.core_persistNativeAgent hw⟩
  | replaceNativeInstances agentId instances allowed =>
    obtain ⟨b, hb, hw⟩ := Option.bind_eq_some_iff.mp hw
    exact ⟨hd.persistNativeInstances (Tables.reads_of_snapshot hb) hw, Tables.core_persistNativeInstances hw⟩
  | ingestNative input =>
    obtain ⟨b, hb, hw⟩ := Option.bind_eq_some_iff.mp hw
    exact ⟨hd.persistNativeIngest (Tables.reads_of_snapshot hb) hw, Tables.core_persistNativeIngest hw⟩
  | _ =>
    cases hw
    exact ⟨hd, rfl⟩

/-- Source maps that are completed raise the version of the service. -/
theorem completeSourceMaps_ok {serviceId commitSha uploaderId : JsString}
    (h : (s.completeSourceMaps cfg now serviceId commitSha uploaderId scope).2 = .ok ()) :
    (s.completeSourceMaps cfg now serviceId commitSha uploaderId scope).1.probes = s.probes ∧
      ∀ sc sv, (s.completeSourceMaps cfg now serviceId commitSha uploaderId scope).1.serviceVersion sc sv =
        s.serviceVersion sc sv + if scope = sc ∧ serviceId = sv then 1 else 0 := by
  unfold completeSourceMaps at h ⊢
  rcases hleased : s.assertSourceMapUploader now serviceId commitSha uploaderId scope with e | t
  · rw [hleased] at h
    cases h
  · obtain ⟨-, rfl⟩ := assertSourceMapUploader_eq_ok hleased
    dsimp only
    generalize hu : (markComplete now serviceId commitSha scope
      (s.grantLease now (sourceMapKey scope serviceId commitSha) uploaderId)).incrementServiceVersion serviceId scope = u
    obtain ⟨hprobes, hversions⟩ := dropSourceMaps_frame (surplusSourceMaps cfg serviceId scope u.sourceMapSets) u
    refine ⟨hprobes.trans (hu ▸ rfl), fun sc sv => ?_⟩
    rw [serviceVersion, hversions, ← serviceVersion, ← hu, serviceVersion_increment]
    rfl

/-- Otherwise nothing changes. -/
theorem completeSourceMaps_error {serviceId commitSha uploaderId : JsString} {e : BrokerError}
    (h : (s.completeSourceMaps cfg now serviceId commitSha uploaderId scope).2 = .error e) :
    (s.completeSourceMaps cfg now serviceId commitSha uploaderId scope).1 = s := by
  unfold completeSourceMaps at h ⊢
  split at h
  · rfl
  · cases h

namespace QueueTask

/-- A request whose method throws. -/
theorem failed_request (h : Backs clock d owed s) (hs : Indexed s) {r : Request} (hv : r.Valid)
    (hfailed : ((request scope r).run cfg now s).2 = false) :
    Backs (max clock now) d ((request scope r).owed cfg now s owed) ((request scope r).run cfg now s).1 := by
  rcases hplain : r.plain with - | -
  · have hmono : Backs (max clock now) d owed s := h.mono (le_max_left _ _)
    cases r with
    | createProbe draws input =>
      rw [QueueTask.owed, hfailed, if_neg Bool.false_ne_true]
      have hstate : ((request scope (.createProbe draws input)).run cfg now s).1 =
        (s.createProbe cfg now draws input scope).1 := rfl
      obtain ⟨t, hcore, ⟨ht, -⟩ | ⟨ht, -⟩ | ⟨_, _, _, -, -, -, -, hok⟩⟩ := createProbe_cases cfg now draws input scope s
      · obtain ⟨hprobes, hcore⟩ := Prod.mk.inj hcore
        have hversions : t.serviceVersions = s.serviceVersions := (Prod.mk.inj hcore).1
        rw [hstate, ht, if_pos (by rw [serviceVersion, serviceVersion, hversions])]
        exact hmono.of_state hprobes hversions
      · have hversion (sc sv) : t.serviceVersion sc sv = s.serviceVersion sc sv :=
          congrArg ServiceView.version (view_of_core hcore)
        rw [hstate, ht, if_neg (by rw [serviceVersion_increment, hversion, if_pos ⟨rfl, rfl⟩]; exact Nat.succ_ne_self _)]
        refine hmono.raise (congrArg Prod.fst hcore) fun sc sv => ?_
        rw [serviceVersion_increment, hversion]
      · simp only [QueueTask.run, BrokerState.handle, answer, hok, Response.returned] at hfailed
        cases hfailed
    | deleteProbe => cases hfailed
    | completeSourceMaps serviceId commitSha uploaderId =>
      rw [QueueTask.owed, hfailed, if_neg Bool.false_ne_true]
      rcases hresult : (s.completeSourceMaps cfg now serviceId commitSha uploaderId scope).2 with e | ⟨⟩
      · have hstate : ((request scope (.completeSourceMaps serviceId commitSha uploaderId)).run cfg now s).1 = s :=
          completeSourceMaps_error hresult
        rw [hstate]
        exact hmono
      · simp only [QueueTask.run, BrokerState.handle, answer, hresult, Response.returned] at hfailed
        cases hfailed
    | _ => cases hplain
  · have howed : (request scope r).owed cfg now s owed = owed := by
      cases r with
      | createProbe | deleteProbe | completeSourceMaps => cases hplain
      | _ => rfl
    rw [howed]
    exact h.handle hs hv hplain cfg now

/-- A request whose method returned, once it is written. -/
theorem written_request (h : Backs clock d owed s) (hs : Indexed s) {r : Request} (hv : r.Valid)
    (hrun : ((request scope r).run cfg now s).2 = true) (hd : d.Parsed)
    (hw : (request scope r).persist cfg db now s d = some d') :
    d'.Parsed ∧ Backs (max clock now) d' ((request scope r).owed cfg now s owed) ((request scope r).run cfg now s).1 := by
  have ht : Indexed (s.handle cfg now scope r).1 := hs.handle hv
  rcases hplain : r.plain with - | -
  · have hle : clock ≤ max clock now := le_max_left _ _
    cases r with
    | createProbe draws input =>
      rw [QueueTask.owed, hrun, if_pos rfl]
      rcases hresult : (s.createProbe cfg now draws input scope).2 with e | probe
      · simp only [QueueTask.run, BrokerState.handle, answer, hresult, Response.returned] at hrun
        cases hrun
      · simp only [QueueTask.persist, Request.persist, BrokerState.handle, answer, hresult] at hw
        obtain ⟨b, hb, hw⟩ := Option.bind_eq_some_iff.mp hw
        exact ⟨hd.persistProbe (Tables.reads_of_snapshot hb) hw, (h.createProbe hs hv hresult hb hw).mono hle⟩
    | deleteProbe id =>
      obtain ⟨b, hb, hw⟩ := Option.bind_eq_some_iff.mp hw
      exact ⟨hd.deleteProbe (Tables.reads_of_snapshot hb) hw, (h.deleteProbe hs ht hb hw).mono hle⟩
    | completeSourceMaps serviceId commitSha uploaderId =>
      rw [QueueTask.owed, hrun, if_pos rfl]
      rcases hresult : (s.completeSourceMaps cfg now serviceId commitSha uploaderId scope).2 with e | ⟨⟩
      · simp only [QueueTask.run, BrokerState.handle, answer, hresult, Response.returned] at hrun
        cases hrun
      · obtain ⟨hparsed, hcore⟩ := persistSourceMapSet_spec ht hd hw
        obtain ⟨hprobes, hversion⟩ := completeSourceMaps_ok hresult
        exact ⟨hparsed, ((h.mono hle).of_core hcore).raise hprobes hversion⟩
    | _ => cases hplain
  · have howed : (request scope r).owed cfg now s owed = owed := by
      cases r with
      | createProbe | deleteProbe | completeSourceMaps => cases hplain
      | _ => rfl
    rw [howed]
    obtain ⟨hparsed, hcore⟩ := Request.persist_plain hplain ht hd hw
    exact ⟨hparsed, (h.handle hs hv hplain cfg now).of_core hcore⟩

/-- A task that does not call the store. -/
theorem failed (h : Backs clock d owed s) (hs : Indexed s) {task : QueueTask} (hv : Backed.Valid (.start now task))
    (hfailed : (task.run cfg now s).2 = false) :
    Backs (max clock now) d (task.owed cfg now s owed) (task.run cfg now s).1 := by
  cases task with
  | sweep =>
    rw [QueueTask.owed, hfailed]
    exact h.expire cfg now
  | request scope r => exact failed_request h hs hv hfailed

/-- A task that calls the store, once its transaction has been committed. -/
theorem written (h : Backs clock d owed s) (hs : Indexed s) {task : QueueTask} (hv : Backed.Valid (.start now task))
    (hrun : (task.run cfg now s).2 = true) (hd : d.Parsed) (hw : task.persist cfg db now s d = some d') :
    d'.Parsed ∧ Backs (max clock now) d' (task.owed cfg now s owed) (task.run cfg now s).1 := by
  cases task with
  | sweep =>
    rw [QueueTask.owed, hrun, if_pos rfl]
    obtain ⟨b, hb, hw⟩ := Option.bind_eq_some_iff.mp hw
    exact ⟨hd.persist (Tables.reads_of_snapshot hb) hw, (h.expire cfg now).persist hs.expireDueProbes hb hw⟩
  | request scope r => exact written_request h hs hv hrun hd hw

end QueueTask

/-! ### Restoring -/

theorem orderBy_perm {α : Type*} (db : Postgres) (columns : α → List JsString) (rows : List α) : (db.orderBy columns rows).Perm rows :=
  List.mergeSort_perm _ _

/-- The probes are the rows. -/
theorem get?_refill (id : JsString) :
    (({} : BrokerState).refill cfg (d.stored db now)).probes.get? id = d.probes.probes.get? id :=
  Table.get?_ofEntries (orderBy_perm _ _ _) Function.injective_id id

/-- The versions are the rows. -/
theorem version_refill (sc : ResourceScope) (sv : JsString) :
    (({} : BrokerState).refill cfg (d.stored db now)).serviceVersion sc sv = d.version sc sv := by
  have hkey : Function.Injective fun k : ResourceScope × JsString => serviceKey k.1 k.2 := fun k k' h => by
    obtain ⟨h₁, h₂⟩ := serviceKey_inj.mp h
    exact Prod.ext h₁ h₂
  have hget := Table.get?_ofEntries (t := d.serviceVersions)
    (orderBy_perm db (fun v => [v.serviceId]) d.serviceVersions.values) hkey (sc, sv)
  show (Option.map _ ((JsMap.ofEntries _).get? (serviceKey sc sv))).getD 0 = _
  rw [Tables.version, ← hget]
  rfl

/-- A restored state has what the tables have. -/
theorem Backs.refill (cfg : Config) (db : Postgres) (now : ℕ) (d : Tables) :
    Backs now d [] (({} : BrokerState).refill cfg (d.stored db now)) := by
  have hrows (id : JsString) :
      Lags now (d.probes.probes.get? id) ((({} : BrokerState).refill cfg (d.stored db now)).probes.get? id) := by
    rw [get?_refill]
    rcases d.probes.probes.get? id with - | row
    · exact .none
    · exact .same row
  exact ⟨hrows, fun n _ sc sv => of_written hrows (version_refill sc sv).le _⟩

/-- The versions are raised once more by what is due. -/
theorem version_restored (sc : ResourceScope) (sv : JsString) :
    d.version sc sv + d.dueCount now sc sv ≤
      (({} : BrokerState).replaceWithSnapshot cfg now (d.stored db now)).serviceVersion sc sv := by
  rw [replaceWithSnapshot, serviceVersion_expireDueProbes, version_refill]
  refine Nat.add_le_add_left ?_ _
  show _ ≤ ((((({} : BrokerState).refill cfg (d.stored db now)).probes.values.filter (StoredProbe.liveIn sc sv)).filter
    (·.due now))).length
  rw [List.filter_filter, ← List.countP_eq_length_filter]
  refine JsMap.countP_values_le fun id p hp hdue => ⟨p, ?_, Bool.and_comm _ _ ▸ hdue⟩
  rw [get?_refill]
  exact hp

/-- **A restored broker has the probes, under versions that are no lower.** -/
theorem Backs.restored (h : Backs clock d owed s) (hle : clock ≤ now) :
    (∀ id, (({} : BrokerState).replaceWithSnapshot cfg now (d.stored db now)).probes.get? id =
        (s.expireDueProbes cfg now).probes.get? id) ∧
      ∀ sc sv, (s.expireDueProbes cfg now).serviceVersion sc sv ≤
        (({} : BrokerState).replaceWithSnapshot cfg now (d.stored db now)).serviceVersion sc sv + owed.count (sc, sv) := by
  refine ⟨fun id => ?_, fun sc sv => ?_⟩
  · rw [replaceWithSnapshot, probes_expireDueProbes, probes_expireDueProbes, JsMap.get?_mapVals, JsMap.get?_mapVals,
      get?_refill]
    exact ((h.rows id).expire_eq hle).symm
  · have hview : (s.expireDueProbes cfg now).serviceVersion sc sv = ((s.view sc sv).expire now).version :=
      congrArg ServiceView.version (view_expireDueProbes cfg now s)
    calc (s.expireDueProbes cfg now).serviceVersion sc sv = ((s.view sc sv).expire now).version := hview
      _ ≤ d.version sc sv + d.dueCount now sc sv + owed.count (sc, sv) := h.versions now hle sc sv
      _ ≤ _ := Nat.add_le_add_right (version_restored sc sv) _

/-- A snapshot that is loaded again. -/
theorem Backs.loaded (h : Backs clock d owed s) (hs : Indexed s) {n : ℕ} (hb : s.snapshot n = some b) (t : BrokerState) :
    Backs (max clock now) d owed (t.loadSnapshot cfg now b).1 := by
  rw [loadSnapshot_of_snapshot hb]
  have hcore := core_refill cfg t hs hb
  simp only [core, Prod.mk.injEq] at hcore
  exact (h.of_state hcore.1 hcore.2.1).expire cfg now

end

/-! ### The invariant -/

namespace Backed

variable {cfg : Config} {db : Postgres} {now : ℕ}

/-- The transaction under way takes the tables from what they have now to what the state has. -/
structure Window (v : Backed) (p : Transaction) : Prop where
  before : ∃ s n, Indexed s ∧ s.snapshot n = some p.before ∧ Backs v.clock v.tables v.owed s
  written : ∀ d d', d.core = v.tables.core → d.Parsed → p.write d = some d' → d'.Parsed ∧ Backs v.clock d' p.owed v.state

structure Sound (v : Backed) : Prop where
  indexed : Indexed v.state
  parsed : v.tables.Parsed
  settled : v.pending = none → Backs v.clock v.tables v.owed v.state
  window : ∀ p ∈ v.pending, Window v p

namespace Sound

variable {v : Backed}

theorem init : Sound {} where
  indexed := .init
  parsed := .init
  settled _ := .init
  window _ h := by cases h

theorem plain_of_not_durable {r : Request} (h : ¬r.durable = true) : r.plain = true := by
  cases r <;> first | rfl | exact absurd rfl h

theorem call (h : Sound v) {scope : ResourceScope} {r : Request} (hv : r.Valid) : Sound (v.next cfg db (.call now scope r)) := by
  unfold next
  dsimp only
  split
  · exact h
  · rename_i hd
    have hplain : r.plain = true := plain_of_not_durable hd
    refine ⟨h.indexed.handle hv, h.parsed, fun hp => (h.settled hp).handle h.indexed hv hplain cfg now, fun p hp => ?_⟩
    obtain ⟨⟨s, n, hs, hb, hback⟩, hwritten⟩ := h.window p hp
    refine ⟨⟨s, n, hs, hb, hback.mono (le_max_left _ _)⟩, fun d d' hcore hd hw => ?_⟩
    obtain ⟨hd', hback'⟩ := hwritten d d' hcore hd hw
    exact ⟨hd', hback'.handle h.indexed hv hplain cfg now⟩

theorem cleared (h : Sound v) {scope : ResourceScope} {serviceId commitSha : JsString} :
    Sound (v.next cfg db (.cleared now scope serviceId commitSha)) := by
  unfold next
  dsimp only
  split
  · exact h
  · rename_i d hw
    obtain ⟨hparsed, hcore⟩ := persistSourceMapSet_spec h.indexed h.parsed hw
    refine ⟨h.indexed, hparsed, fun hp => (h.settled hp).of_core hcore, fun p hp => ?_⟩
    obtain ⟨⟨s, n, hs, hb, hback⟩, hwritten⟩ := h.window p hp
    exact ⟨⟨s, n, hs, hb, hback.of_core hcore⟩, fun d d' hcore' => hwritten d d' (hcore'.trans hcore)⟩

theorem start (h : Sound v) {task : QueueTask} (hv : Valid (.start now task)) : Sound (v.next cfg db (.start now task)) := by
  unfold next
  dsimp only
  split
  · rename_i before hnone hb
    have hback := h.settled hnone
    have hindexed : Indexed (task.run cfg now v.state).1 := by
      cases task with
      | request scope r => exact h.indexed.handle hv
      | sweep => exact h.indexed.expireDueProbes
    split
    · rename_i hrun
      refine ⟨hindexed, h.parsed, fun hp => (by cases hp), fun p hp => ?_⟩
      obtain rfl := Option.some.inj hp
      refine ⟨⟨v.state, now, h.indexed, hb, hback.mono (le_max_left _ _)⟩, fun d d' hcore hd hw => ?_⟩
      exact QueueTask.written (hback.of_core hcore) h.indexed hv hrun hd hw
    · rename_i hrun
      refine ⟨hindexed, h.parsed, fun _ => ?_, fun p hp => by rw [hnone] at hp; cases hp⟩
      exact QueueTask.failed hback h.indexed hv (Bool.eq_false_iff.mpr hrun)
  · exact h

theorem committed (h : Sound v) : Sound (v.next cfg db .committed) := by
  unfold next
  dsimp only
  split
  · exact h
  · rename_i p hp
    split
    · exact h
    · rename_i d hw
      obtain ⟨hd, hback⟩ := (h.window p hp).written v.tables d rfl h.parsed hw
      exact ⟨h.indexed, hd, fun _ => hback, fun _ h => by cases h⟩

theorem rejected (h : Sound v) : Sound (v.next cfg db (.rejected now)) := by
  unfold next
  dsimp only
  split
  · exact h
  · rename_i p hp
    obtain ⟨⟨s, n, hs, hb, hback⟩, -⟩ := h.window p hp
    exact ⟨h.indexed.loadSnapshot p.before, h.parsed, fun _ => hback.loaded hs hb v.state, fun _ h => by cases h⟩

theorem closed (h : Sound v) : Sound (v.next cfg db (.closed now)) := by
  unfold next
  dsimp only
  split
  · rename_i d hnone hw
    obtain ⟨b, hb, hw⟩ := Option.bind_eq_some_iff.mp hw
    refine ⟨h.indexed, h.parsed.persist (Tables.reads_of_snapshot hb) hw, fun _ => ?_, fun p hp => ?_⟩
    · exact (h.settled hnone).persist h.indexed hb hw
    · rw [hnone] at hp
      cases hp
  · exact h

theorem restart (h : Sound v) : Sound (v.next cfg db (.restart now)) := by
  unfold next
  dsimp only
  split
  · exact h
  · rename_i s hrestored
    obtain ⟨rfl, hreads⟩ := h.parsed.of_restore hrestored
    have hback := (Backs.refill cfg db now v.tables).expire cfg now
    rw [max_self] at hback
    exact ⟨(Indexed.refill hreads).expireDueProbes, h.parsed, fun _ => hback.mono (le_max_right _ _), fun _ h => by cases h⟩

theorem next (h : Sound v) (e : BackedEvent) (hv : Valid e) : Sound (v.next cfg db e) := by
  cases e with
  | call now scope r => exact h.call hv
  | cleared => exact h.cleared
  | start now task => exact h.start hv
  | committed => exact h.committed
  | rejected now => exact h.rejected
  | closed now => exact h.closed
  | restart now => exact h.restart

end Sound

/-- The state at a clock value without the mutation whose transaction is under way. -/
def settled (cfg : Config) (now : ℕ) (v : Backed) : BrokerState :=
  match v.pending with
  | none => v.state.expireDueProbes cfg now
  | some p => (v.state.loadSnapshot cfg now p.before).1

/-- **A broker that crashes at any point comes back with its probes**, less what
is due by then, under versions that are lower by no more than what was not
written. -/
theorem restart_recovers (cfg : Config) (db : Postgres) {v : Backed} (h : Reached (next cfg db) (fun _ e => Valid e) {} v)
    {now : ℕ} (hclock : v.clock ≤ now) (hnow : now < IsoDate.year10000) :
    ∃ r, v.tables.restore cfg db now = some r ∧
      (∀ id, r.probes.get? id = (v.settled cfg now).probes.get? id) ∧
      ∀ sc sv, (v.settled cfg now).serviceVersion sc sv ≤ r.serviceVersion sc sv + v.owed.count (sc, sv) := by
  have hsound : Sound v := h.invariant Sound.init fun _ e hs hv => hs.next e hv
  refine ⟨_, hsound.parsed.restore cfg hnow, ?_⟩
  unfold settled
  split
  · rename_i hnone
    exact (hsound.settled hnone).restored hclock
  · rename_i p hp
    obtain ⟨⟨s, n, hs, hb, hback⟩, -⟩ := hsound.window p hp
    rw [loadSnapshot_of_snapshot hb]
    have hcore := core_refill cfg v.state hs hb
    simp only [core, Prod.mk.injEq] at hcore
    exact (hback.of_state hcore.1 hcore.2.1).restored hclock

end Backed

namespace Sample

/-- Texts in the order of their units, which for timestamps of one form is that of time. -/
def postgres : Postgres := ⟨Broker.codeUnitLe, fun a b => Broker.codeUnitLe b a⟩

/-- A counter is created and committed, and expires in memory. -/
def crashing : Backed :=
  [BackedEvent.start 0 (.request scope (.createProbe (draw 'A') (counter 1))), .committed,
    .call 1800000 scope (.listProbes none)].foldl (Backed.next config postgres) {}

/-- The version that the expiry has raised is not in the tables. -/
example : crashing.tables.version scope (js "api") < crashing.state.serviceVersion scope (js "api") := by decide

theorem crashing_recovers :
    ∃ r, crashing.tables.restore config postgres 1800001 = some r ∧
      (∀ id, r.probes.get? id = (crashing.settled config 1800001).probes.get? id) ∧
      ∀ sc sv, (crashing.settled config 1800001).serviceVersion sc sv ≤
        r.serviceVersion sc sv + crashing.owed.count (sc, sv) := by
  have hreached : Reached (Backed.next config postgres) (fun _ e => Backed.Valid e) {} crashing :=
    Reached.foldl .init ⟨counter_valid 1 (by simp), trivial, rfl, trivial⟩
  have hclock : crashing.clock = 1800000 := rfl
  exact Backed.restart_recovers config postgres hreached (by omega) (by decide)

end Sample
