/-
LiveProbe/LogicalStatus.lean

The logical status of a probe over the life of a broker.

A status is written by an expiry, by a managed event, by a derivation from the
native statuses, and it goes with its probe (`statuses_change`).  The derivation
leaves an expired probe alone; `ingest` does not look at the flag, so a status
event that is still in an agent's buffer when its probe expires brings the
logical status back (`expired_overwritten`).  Where no such event is accepted,
the status of an expired probe reads `expired` until the probe is deleted
(`expired_final`).
-/
import LiveProbe.Process
import LiveProbe.Answers

open JsString Broker BrokerState

namespace BrokerState

variable {cfg : Config} {L : Limits} {now : ℕ} {scope : ResourceScope} {r : Request}
  {s t : BrokerState}

/-! ### What writes a status -/

/-- The logical statuses change by an expiry, a deletion, a managed event or a native one. -/
theorem statuses_change (h : Change cfg now scope r s t) :
    t.statuses = s.statuses ∨ t = s.expireDueProbes cfg now ∨
      (∃ id stored, r = .deleteProbe id ∧ s.probes.get? id = some stored ∧ stored.scope = scope ∧
        t.probes = s.probes.delete id ∧ t.statuses = s.statuses.delete id) ∨
      (∃ input e status, r = .ingest input ∧ e ∈ input.events ∧
        s.ingestedStatus e = some status ∧ t.probes = s.probes ∧
        t.statuses = s.statuses.set e.probeId status) ∨
      ∃ input e stored status derived u, r = .ingestNative input ∧ e ∈ input.events ∧
        s.probes.get? e.probeId = some stored ∧ stored.scope = scope ∧ stored.expired = false ∧
        nativeStatusOf e = some status ∧
        u = (s.appendEvent cfg e).withNativeStatus scope input (statusKeyOf scope input e) status ∧
        u.derivedStatus scope stored e.probeId = some derived ∧ t.probes = s.probes ∧
        t.statuses = s.statuses.set e.probeId derived := by
  rcases keepsProbes_or h with hsame | hc
  · exact .inl hsame.statuses
  cases hc with
  | expire => exact .inr (.inl rfl)
  | create => exact .inl rfl
  | delete id stored isDelete found own t hsame =>
    exact .inr (.inr (.inl ⟨id, stored, isDelete, found, own, congrArg (JsMap.delete · id) hsame.probes,
      congrArg (JsMap.delete · id) hsame.statuses⟩))
  | event input e isIngest mem =>
    obtain ⟨statuses, rfl | ⟨status, hstatus, rfl⟩, h⟩ := ingestEvent_eq cfg s e
    · left
      rw [h]
    · refine .inr (.inr (.inr (.inl ⟨input, e, status, isIngest, mem, hstatus, ?_, ?_⟩)))
      · exact probes_ingestEvent s e
      · rw [h]
  | replace agentId instances allowed agent _ registered checked =>
    left
    obtain ⟨_, _, _, _, h⟩ := replaceNativeInstances_frame now registered checked
    rw [h]
  | prune => exact .inl rfl
  | nativeEvent input found e isIngest mem =>
    rcases ingestNativeEvent_eq cfg scope input s e with h | ⟨status, hstatus, -, h⟩
    · left
      rw [h]
      rfl
    obtain ⟨statuses, rfl | ⟨stored, derived, hown, hlive, hderived, rfl⟩, hd⟩ :=
      deriveNativeLogicalStatus_eq e.probeId scope
        ((s.appendEvent cfg e).withNativeStatus scope input (statusKeyOf scope input e) status)
    · left
      rw [h, hd]
      rfl
    · obtain ⟨hstored, hscope⟩ := Option.filter_eq_some_iff.mp hown
      refine .inr (.inr (.inr (.inr ⟨input, e, stored, status, derived, _, isIngest, mem, hstored,
        of_decide_eq_true hscope, hlive, hstatus, rfl, hderived, ?_, ?_⟩)))
      · exact probes_ingestNativeEvent input s e
      · rw [h, hd]
        rfl

/-! ### Expiry -/

/-- The status of every expired probe reads `expired`. -/
def ExpiredShown (s : BrokerState) : Prop :=
  ∀ id stored, s.probes.get? id = some stored → stored.expired = true →
    ∃ status, s.statuses.get? id = some status ∧ status.status = .expired

theorem ExpiredShown.init : ExpiredShown {} := by
  intro id stored hstored
  cases hstored

theorem ExpiredShown.congr (h : ExpiredShown s) (hprobes : t.probes = s.probes)
    (hstatuses : t.statuses = s.statuses) : ExpiredShown t := by
  intro id stored hstored
  rw [hprobes] at hstored
  rw [hstatuses]
  exact h id stored hstored

/-- A probe that is not expired may get any status. -/
theorem ExpiredShown.setLive (h : ExpiredShown s) {id : JsString} {status : ProbeStatus}
    (hlive : ∀ stored, s.probes.get? id = some stored → stored.expired = true →
      status.status = .expired)
    (hprobes : t.probes = s.probes) (hstatuses : t.statuses = s.statuses.set id status) :
    ExpiredShown t := by
  intro id' stored hstored hexpired
  rw [hprobes] at hstored
  rw [hstatuses]
  by_cases hid : id' = id
  · subst hid
    exact ⟨status, JsMap.get?_set_self .., hlive stored hstored hexpired⟩
  · rw [JsMap.get?_set_of_ne hid]
    exact h id' stored hstored hexpired

theorem ExpiredShown.expireProbe (h : ExpiredShown s) (hi : Indexed s) {e : JsString × StoredProbe}
    (he : e ∈ s.probes.entries) (hdue : e.2.due now = true) :
    ExpiredShown (s.expireProbe cfg now e) := by
  obtain ⟨hkey, -⟩ := hi.probes _ _ (JsMap.get?_eq_some_iff.mpr he)
  rw [BrokerState.expireProbe, if_pos hdue]
  intro id stored hstored hexpired
  change (s.probes.set e.1 e.2.markExpired).get? id = some stored at hstored
  show ∃ status, (s.statuses.set e.2.probe.id _).get? id = some status ∧ _
  by_cases hid : id = e.1
  · rw [hid, hkey]
    exact ⟨_, JsMap.get?_set_self .., rfl⟩
  · rw [JsMap.get?_set_of_ne hid] at hstored
    rw [JsMap.get?_set_of_ne (hkey ▸ hid)]
    exact h id stored hstored hexpired

theorem ExpiredShown.expireDueProbes (h : ExpiredShown s) (hi : Indexed s) :
    ExpiredShown (s.expireDueProbes cfg now) := by
  have hboth : Indexed (s.expireDueProbes cfg now) ∧ ExpiredShown (s.expireDueProbes cfg now) :=
    expireDueProbes_induction (P := fun t => Indexed t ∧ ExpiredShown t) ⟨hi, h⟩
      fun t e ⟨hi, h⟩ he hdue => ⟨hi.expireProbe he hdue, h.expireProbe hi he hdue⟩
  exact hboth.2

/-- Only a managed event changes the status of an expired probe. -/
theorem ExpiredShown.change (h : ExpiredShown s) (hi : Indexed s)
    (hr : ∀ input, r ≠ .ingest input) (hc : Change cfg now scope r s t) : ExpiredShown t := by
  rcases statuses_change hc with hs | rfl | ⟨id, stored, -, -, -, hp, hs⟩ |
    ⟨input, e, status, hingest, -⟩ |
    ⟨input, e, stored, status, derived, u, -, -, hfound, -, hlive, -, -, -, hp, hs⟩
  · -- the probes may have changed
    rcases probes_change hc with hp | rfl | ⟨draws, input, compiled, id, probe, -, -, -, -, ht⟩ |
      ⟨id, stored, -, -, -, hp⟩
    · exact h.congr hp hs
    · exact h.expireDueProbes hi
    · intro id' stored hstored hexpired
      have hp : t.probes = s.probes.set probe.id
          { scope, probe, expiresAt := now + probe.ttlSeconds * 1000, expired := false } := by
        rw [ht]
        rfl
      rw [hp] at hstored
      rw [hs]
      by_cases hid : id' = probe.id
      · rw [hid, JsMap.get?_set_self] at hstored
        cases hstored
        cases hexpired
      · rw [JsMap.get?_set_of_ne hid] at hstored
        exact h id' stored hstored hexpired
    · intro id' stored' hstored hexpired
      rw [hp, JsMap.get?_delete] at hstored
      split at hstored
      · cases hstored
      · rw [hs]
        exact h id' stored' hstored hexpired
  · exact h.expireDueProbes hi
  · intro id' stored' hstored hexpired
    rw [hp, JsMap.get?_delete] at hstored
    rw [hs, JsMap.get?_delete]
    split at hstored
    · cases hstored
    · next hid =>
      rw [if_neg hid]
      exact h id' stored' hstored hexpired
  · exact absurd hingest (hr input)
  · refine h.setLive (fun stored' hstored' hexpired => ?_) hp hs
    rw [hfound] at hstored'
    cases hstored'
    rw [hlive] at hexpired
    cases hexpired

/-- The status events of a list say of no expired probe that it is anything else. -/
def SparesExpired (s : BrokerState) (events : List ProbeEvent) : Prop :=
  ∀ e ∈ events, ∀ stored, s.probes.get? e.probeId = some stored → stored.expired = true →
    ∀ status detail metadata, e.body = .status status detail metadata → status = .expired

theorem ExpiredShown.ingestEvents (h : ExpiredShown s) {events : List ProbeEvent}
    (hspares : SparesExpired s events) : ExpiredShown (events.foldl (ingestEvent cfg) s) := by
  induction events generalizing s with
  | nil => exact h
  | cons e events ih =>
    have hprobes : (s.ingestEvent cfg e).probes = s.probes := probes_ingestEvent s e
    refine ih ?_ fun e' he' => hprobes ▸ hspares e' (List.mem_cons_of_mem _ he')
    obtain ⟨statuses, rfl | ⟨status, hstatus, rfl⟩, heq⟩ := ingestEvent_eq cfg s e
    · exact h.congr hprobes (by rw [heq])
    · refine h.setLive (fun stored hstored hexpired => ?_) hprobes (by rw [heq])
      unfold ingestedStatus at hstatus
      split at hstatus
      · next name detail metadata hbody =>
        cases hstatus
        exact hspares e List.mem_cons_self stored hstored hexpired _ _ _ hbody
      · cases hstatus

/-- What every change from an indexed state keeps holds at the end of a sequence of changes. -/
theorem Indexed.changes_induction {I : BrokerState → Prop} (hi : Indexed s) (hv : r.Valid)
    (base : I s) (step : ∀ u v, Indexed u → I u → Change cfg now scope r u v → I v)
    (h : Changes cfg now scope r s t) : I t := by
  have hboth : Indexed t ∧ I t := by
    induction h with
    | refl => exact ⟨hi, base⟩
    | tail _ hc ih => exact ⟨ih.1.change hv hc, step _ _ ih.1 ih.2 hc⟩
  exact hboth.2

/-- The same over records that pass their schemas. -/
theorem Records.changes_induction {I : BrokerState → Prop} (hr : Records cfg .schemas s)
    (hi : Indexed s) (hv : r.Valid) (base : I s)
    (step : ∀ u v, Indexed u → Records cfg .schemas u → I u → Change cfg now scope r u v → I v)
    (h : Changes cfg now scope r s t) : I t := by
  have hL := Limits.schemas_admits now scope r
  have hboth : Records cfg .schemas t ∧ I t := by
    refine hi.changes_induction (I := fun t => Records cfg .schemas t ∧ I t) hv ⟨hr, base⟩ ?_ h
    exact fun u v hi ⟨hr, hI⟩ hc => ⟨hr.change hi hv hL hc, step u v hi hr hI hc⟩
  exact hboth.2

theorem ExpiredShown.handle (h : ExpiredShown s) (hi : Indexed s) (hv : r.Valid)
    (hspares : ∀ input, r = .ingest input →
      checkEvents input scope (s.expireDueProbes cfg now) input.events = .ok () →
        SparesExpired (s.expireDueProbes cfg now) input.events) :
    ExpiredShown (s.handle cfg now scope r).1 := by
  by_cases hr : ∃ input, r = .ingest input
  · obtain ⟨input, rfl⟩ := hr
    have hx : ExpiredShown (s.expireDueProbes cfg now) := h.expireDueProbes hi
    have hspares := hspares input rfl
    show ExpiredShown (s.ingest cfg now input scope).1
    unfold ingest
    dsimp only
    split
    · exact hx
    · next hok =>
      have hagent : ExpiredShown ((s.expireDueProbes cfg now).ingestAgent now input scope) :=
        hx.congr rfl rfl
      exact hagent.ingestEvents (hspares hok)
  · rw [not_exists] at hr
    exact hi.changes_induction hv h (fun u v hu hI hc => hI.change hu hr hc)
      (handle_changes cfg now scope r s)

/-! ### A probe that has expired -/

/-- A probe of the scope has expired. -/
def Expired (scope : ResourceScope) (id : JsString) (s : BrokerState) : Prop :=
  ∃ stored, s.probes.get? id = some stored ∧ stored.scope = scope ∧ stored.expired = true

/-- An expiry leaves an expired probe as it is. -/
theorem expire_of_expired {p : StoredProbe} (h : p.expired = true) : p.expire now = p := by
  refine if_neg ?_
  rw [StoredProbe.due, h]
  exact Bool.false_ne_true

/-- Only its deletion removes a probe, and none is brought back to life. -/
theorem probe_survives (hc : Change cfg now scope r s t) {id : JsString} {stored : StoredProbe}
    (found : s.probes.get? id = some stored)
    (hr : r = .deleteProbe id → scope ≠ stored.scope) :
    ∃ kept, t.probes.get? id = some kept ∧ kept.scope = stored.scope ∧
      (stored.expired = true → kept.expired = true) := by
  rcases probes_change hc with hp | rfl |
    ⟨draws, input, compiled, id', probe, -, -, hdrawn, hparsed, rfl⟩ |
    ⟨id', stored', hdelete, hfound, hown, hp⟩
  · exact ⟨stored, hp ▸ found, rfl, fun hexpired => hexpired⟩
  · refine ⟨stored.expire now, ?_, expire_scope now stored, fun hexpired => ?_⟩
    · rw [probes_expireDueProbes, JsMap.get?_mapVals, found, Option.map_some]
    · rw [expire_of_expired hexpired]
      exact hexpired
  · have hfresh : s.probes.has probe.id = false := by
      rw [(newDefinition_parsed hparsed).1]
      exact drawProbeId_fresh hdrawn
    have hid : id ≠ probe.id := by
      rintro rfl
      rw [JsMap.has, found] at hfresh
      cases hfresh
    exact ⟨stored, (JsMap.get?_set_of_ne hid _).trans found, rfl, fun hexpired => hexpired⟩
  · have hid : id ≠ id' := by
      rintro rfl
      rw [hfound] at found
      cases found
      exact hr hdelete hown.symm
    refine ⟨stored, ?_, rfl, fun hexpired => hexpired⟩
    rw [hp, JsMap.get?_delete_of_ne hid]
    exact found

theorem Expired.change {owner : ResourceScope} {id : JsString} (h : Expired owner id s)
    (hr : r = .deleteProbe id → scope ≠ owner) (hc : Change cfg now scope r s t) :
    Expired owner id t := by
  obtain ⟨stored, hstored, rfl, hexpired⟩ := h
  obtain ⟨kept, hkept, hscope, hlater⟩ := probe_survives hc hstored hr
  exact ⟨kept, hkept, hscope, hlater hexpired⟩

theorem Expired.expireDueProbes {id : JsString} (h : Expired scope id s) :
    Expired scope id (s.expireDueProbes cfg now) := by
  have hc : Change cfg now scope (.listProbes none) s (s.expireDueProbes cfg now) := .expire
  exact h.change (fun hr => by cases hr) hc

theorem Expired.handle {owner : ResourceScope} {id : JsString} (h : Expired owner id s)
    (hi : Indexed s) (hv : r.Valid) (hr : r = .deleteProbe id → scope ≠ owner) :
    Expired owner id (s.handle cfg now scope r).1 :=
  hi.changes_induction hv h (fun _ _ _ hI hc => hI.change hr hc) (handle_changes cfg now scope r s)

/-- Every answer with the status of a probe says that it has expired, and its owner gets one. -/
structure ReadsExpired (cfg : Config) (owner : ResourceScope) (id : JsString) (s : BrokerState) :
    Prop where
  owned : ∀ now, ∃ status, (s.handle cfg now owner (.getStatus id)).2 = .status (some status) ∧
    status.status = .expired
  got : ∀ now scope status, (s.handle cfg now scope (.getStatus id)).2 = .status (some status) →
    status.status = .expired
  listed : ∀ now scope serviceId l,
    (s.handle cfg now scope (.listProbes serviceId)).2 = .probes l →
      ∀ probe status, (probe, status) ∈ l → probe.id = id →
        ∃ value, status = some value ∧ value.status = .expired

theorem readsExpired {owner : ResourceScope} {id : JsString} (hi : Indexed s) (hs : ExpiredShown s)
    (h : Expired owner id s) : ReadsExpired cfg owner id s := by
  have hshown : ∀ now, ∃ status, (s.expireDueProbes cfg now).statuses.get? id = some status ∧
      status.status = .expired := by
    intro now
    have hx : Expired owner id (s.expireDueProbes cfg now) := h.expireDueProbes
    obtain ⟨stored, hstored, -, hexpired⟩ := hx
    exact hs.expireDueProbes hi id stored hstored hexpired
  refine ⟨fun now => ?_, fun now scope status hget => ?_, fun now scope serviceId l hlist => ?_⟩
  · obtain ⟨status, hstatus, hname⟩ := hshown now
    have hx : Expired owner id (s.expireDueProbes cfg now) := h.expireDueProbes
    obtain ⟨stored, hstored, hscope, -⟩ := hx
    have hown : (s.expireDueProbes cfg now).ownProbe id owner = some stored := by
      rw [ownProbe, hstored, Option.filter_some, if_pos (decide_eq_true hscope)]
    refine ⟨status, ?_, hname⟩
    show Response.status (((s.expireDueProbes cfg now).ownProbe id owner).bind _) = _
    rw [hown, Option.bind_some, hstatus]
  · obtain ⟨value, hvalue, hname⟩ := hshown now
    have hanswer : ((s.expireDueProbes cfg now).ownProbe id scope).bind
        (fun _ => (s.expireDueProbes cfg now).statuses.get? id) = some status :=
      Response.status.inj hget
    obtain ⟨stored, -, hstatus⟩ := Option.bind_eq_some_iff.mp hanswer
    rw [hvalue] at hstatus
    cases hstatus
    exact hname
  · rintro probe status hmem rfl
    have hl : _ = l := Response.probes.inj hlist
    rw [← hl] at hmem
    obtain ⟨stored, -, heq⟩ := List.mem_map.mp hmem
    cases heq
    exact hshown now

end BrokerState

namespace Process

variable {cfg : Config} {owner : ResourceScope} {id : JsString}

/-! ### Runs -/

/-- A batch that is accepted says of no expired probe that it is anything else. -/
def SparesExpired (cfg : Config) (p : Process) : ProcessEvent → Prop
  | .request now scope (.ingest input) =>
    checkEvents input scope (p.state.expireDueProbes cfg now) input.events = .ok () →
      BrokerState.SparesExpired (p.state.expireDueProbes cfg now) input.events
  | _ => True

/-- The event does not delete the probe. -/
def Keeps (owner : ResourceScope) (id : JsString) (e : ProcessEvent) : Prop :=
  ∀ now, e ≠ .request now owner (.deleteProbe id)

/-- What the status of expired probes rests on. -/
structure ExpiryInvariant (cfg : Config) (s : BrokerState) : Prop where
  indexed : Indexed s
  records : Records cfg .schemas s
  shown : ExpiredShown s

theorem ExpiryInvariant.init : ExpiryInvariant cfg {} := ⟨.init, .init, .init⟩

theorem ExpiryInvariant.request {p : Process} (h : ExpiryInvariant cfg p.state) {now : ℕ}
    {scope : ResourceScope} {r : Request} (hv : r.Valid)
    (hspares : SparesExpired cfg p (.request now scope r)) :
    ExpiryInvariant cfg (p.state.handle cfg now scope r).1 where
  indexed := h.indexed.handle hv
  records := h.records.handle h.indexed hv (Limits.schemas_admits now scope r)
  shown := h.shown.handle h.indexed hv fun input hr => by
    subst hr
    exact hspares

theorem ExpiryInvariant.sweep {s : BrokerState} (h : ExpiryInvariant cfg s) (now : ℕ) :
    ExpiryInvariant cfg (s.expireDueProbes cfg now) where
  indexed := h.indexed.expireDueProbes
  records := h.records.expireDueProbes h.indexed trivial
  shown := h.shown.expireDueProbes h.indexed

/-- A snapshot brings back the probes and their statuses. -/
theorem ExpiryInvariant.load {s : BrokerState} (h : ExpiryInvariant cfg s) (t : BrokerState)
    {now n : ℕ} {b : BrokerSnapshot} (hb : s.snapshot n = some b) :
    ExpiryInvariant cfg (t.loadSnapshot cfg now b).1 := by
  have hcore := core_refill cfg t h.indexed hb
  have hprobes : (t.refill cfg b).probes = s.probes := congrArg Prod.fst hcore
  have hrefill : ExpiredShown (t.refill cfg b) :=
    h.shown.congr hprobes (statuses_refill t h.records hb)
  have hindexed : Indexed (t.refill cfg b) := Indexed.refill (snapshotSchema_eq_some.mp hb)
  refine ⟨?_, h.records.loadSnapshot t h.indexed hb trivial, ?_⟩
  · rw [loadSnapshot_of_snapshot hb]
    exact hindexed.expireDueProbes
  · rw [loadSnapshot_of_snapshot hb]
    exact hrefill.expireDueProbes hindexed

theorem Expired.load {s : BrokerState} (h : Expired owner id s) (hi : Indexed s) (t : BrokerState)
    {now n : ℕ} {b : BrokerSnapshot} (hb : s.snapshot n = some b) :
    Expired owner id (t.loadSnapshot cfg now b).1 := by
  have hprobes : (t.refill cfg b).probes = s.probes := congrArg Prod.fst (core_refill cfg t hi hb)
  obtain ⟨stored, hstored, hown⟩ := h
  have hrefill : Expired owner id (t.refill cfg b) := ⟨stored, hprobes ▸ hstored, hown⟩
  rw [loadSnapshot_of_snapshot hb]
  exact hrefill.expireDueProbes

/-- **Expired is final.**  In a run whose accepted batches spare expired probes, the
status of a probe that has expired reads `expired` until the probe is deleted. -/
theorem expired_final {p q : Process}
    (hp : Reached (next cfg) (fun p e => Valid e ∧ SparesExpired cfg p e) {} p)
    (hexpired : Expired owner id p.state)
    (hq : Reached (next cfg) (fun p e => (Valid e ∧ SparesExpired cfg p e) ∧ Keeps owner id e)
      ⟨p.state, []⟩ q) :
    ReadsExpired cfg owner id q.state := by
  have hinv : ExpiryInvariant cfg p.state := by
    refine invariant_since .init ?_ ?_ ?_ hp
    · exact fun p now scope r h ⟨hv, hspares⟩ => h.request hv hspares
    · exact fun p now h _ => h.sweep now
    · exact fun p e now _ _ s t b n h hb => h.load t hb
  have hboth : ExpiryInvariant cfg q.state ∧ Expired owner id q.state := by
    refine invariant_since (I := fun s => ExpiryInvariant cfg s ∧ Expired owner id s)
      ⟨hinv, hexpired⟩ ?_ ?_ ?_ hq
    · rintro p now scope r ⟨h, hx⟩ ⟨⟨hv, hspares⟩, hkeeps⟩
      refine ⟨h.request hv hspares, hx.handle h.indexed hv ?_⟩
      rintro rfl rfl
      exact hkeeps now rfl
    · rintro p now ⟨h, hx⟩ -
      exact ⟨h.sweep now, hx.expireDueProbes⟩
    · rintro p e now - - s t b n ⟨h, hx⟩ hb
      exact ⟨h.load t hb, Expired.load hx h.indexed t hb⟩
  exact readsExpired hboth.1.indexed hboth.1.shown hboth.2

end Process

/-! ### Late events -/

/-- A batch passes when its parts do. -/
theorem ingestSchema_of_parts {i : IngestInput} (h : Protocol.IngestParts i)
    (hcapabilities : i.capabilities = some (i.capabilities.getD []))
    (hlength : i.events.length ≤ 10000) : Protocol.ingestSchema i = some i := by
  have hevents : Schema.boundedArray Protocol.probeEventSchema 0 10000 i.events = some i.events :=
    Schema.boundedArray_self.mpr ⟨h.events, Nat.zero_le _, hlength⟩
  simp only [Protocol.ingestSchema, h.serviceId, h.agentId, h.commitSha, h.capabilities,
    h.agentStatus, hevents, Option.bind_eq_bind, Option.bind_some, Option.pure_def]
  rw [← hcapabilities]

namespace Sample

def firstId : JsString := draw '1' 0

def agentCommit : JsString := js "0123456789abcdef0123456789abcdef01234567"

/-- A batch of one event of the Node agent of `api`. -/
def batch (e : ProbeEvent) : IngestInput where
  serviceId := js "api"
  sdk := .node
  agentId := none
  commitSha := agentCommit
  commitSource := none
  capabilities := some []
  agentStatus := { state := .green }
  events := [e]

theorem batch_valid {e : ProbeEvent} (h : Protocol.probeEventSchema e = some e) :
    (Request.ingest (batch e)).Valid := by
  have hservice : Protocol.serviceIdSchema (js "api") = some (js "api") := by decide
  have hcommit : Protocol.sourceCommitSchema agentCommit = some agentCommit := by decide
  refine ingestSchema_of_parts ⟨hservice, rfl, hcommit, rfl, rfl, ?_⟩ rfl
    (Nat.le_of_ble_eq_true rfl)
  rintro e' he'
  rw [List.mem_singleton.mp he']
  exact h

/-- A second after the probe expired. -/
def lateTs : JsString := js "1970-01-01T00:30:01.000Z"

def lateStatus : ProbeEvent := ⟨firstId, none, lateTs, .status .suspended none {}⟩

def lateCount : ProbeEvent := ⟨firstId, none, lateTs, .counter 1⟩

/-- The probe has expired. -/
def expired : Process := Process.next config created (.sweep 1800000)

theorem expired_reached :
    Reached (Process.next config) (fun p e => Process.Valid e ∧ Process.SparesExpired config p e) {}
      expired ∧ Expired scope firstId expired.state := by
  constructor
  · refine Reached.step _ (Reached.step _ .init ⟨?_, trivial⟩) ⟨trivial, trivial⟩
    exact counter_valid 1 (List.mem_cons_self ..)
  · have hfound : (expired.state.probes.get? firstId).any
        (fun stored => stored.scope = scope && stored.expired) = true := by
      decide
    obtain ⟨stored, hstored, hown⟩ := (Option.any_eq_true _ _).mp hfound
    rw [Bool.and_eq_true] at hown
    exact ⟨stored, hstored, of_decide_eq_true hown.1, hown.2⟩

theorem lateEvents_parsed : Protocol.probeEventSchema lateStatus = some lateStatus ∧
    Protocol.probeEventSchema lateCount = some lateCount := by
  have hid : Protocol.probeIdSchema firstId = some firstId := by decide
  have hts : Protocol.timestampSchema lateTs = some lateTs := by decide
  constructor
  · exact Protocol.probeEventSchema_self.mpr
      ⟨hid, rfl, hts, Protocol.eventBodySchema_status_self.mpr ⟨rfl, rfl⟩⟩
  · exact Protocol.probeEventSchema_self.mpr ⟨hid, rfl, hts, rfl⟩

/-- A late count leaves the status as it is. -/
theorem expired_counted :
    ReadsExpired config scope firstId
      (Process.next config ⟨expired.state, []⟩ (.request 1801000 scope (.ingest (batch lateCount)))).state := by
  refine Process.expired_final expired_reached.1 expired_reached.2
    (Reached.step _ .init ⟨⟨batch_valid lateEvents_parsed.2, ?_⟩, nofun⟩)
  rintro - e he stored - - status detail metadata hbody
  rw [List.mem_singleton.mp he] at hbody
  cases hbody

theorem state_ingest (cfg : Config) (now : ℕ) (scope : ResourceScope) (input : IngestInput)
    (s : BrokerState) :
    (Process.next cfg ⟨s, []⟩ (.request now scope (.ingest input))).state
      = (s.ingest cfg now input scope).1 := rfl

/-- A late status of a managed agent replaces `expired`. -/
theorem expired_overwritten :
    ∃ p q, Reached (Process.next config) (fun _ e => Process.Valid e) {} p ∧
      Expired scope firstId p.state ∧
        Reached (Process.next config) (fun _ e => Process.Valid e ∧ Process.Keeps scope firstId e)
          ⟨p.state, []⟩ q ∧
          ¬ ReadsExpired config scope firstId q.state := by
  have hstep : ∀ s : BrokerState, Reached (Process.next config)
      (fun _ e => Process.Valid e ∧ Process.Keeps scope firstId e) ⟨s, []⟩
      (Process.next config ⟨s, []⟩ (.request 1801000 scope (.ingest (batch lateStatus)))) := by
    intro s
    exact .step _ .init ⟨batch_valid lateEvents_parsed.1, fun _ h => nomatch h⟩
  have hread : (((expired.state.ingest config 1801000 (batch lateStatus) scope).1.getStatus
      config 1801000 firstId scope).2.any fun status => status.status = .suspended) = true := by
    decide
  refine ⟨expired, _, expired_reached.1.mono fun _ _ h => h.1, expired_reached.2,
    hstep expired.state, fun h => ?_⟩
  rw [state_ingest] at h
  generalize (expired.state.ingest config 1801000 (batch lateStatus) scope).1 = u at h hread
  obtain ⟨status, hstatus, hname⟩ := h.owned 1801000
  obtain ⟨status', hstatus', hname'⟩ := (Option.any_eq_true _ _).mp hread
  rw [Response.status.inj hstatus] at hstatus'
  cases hstatus'
  rw [hname] at hname'
  exact absurd hname' (by decide)

end Sample
