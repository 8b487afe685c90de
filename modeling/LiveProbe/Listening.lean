/-
LiveProbe/Listening.lean

Whether something listens where a probe of a native service reads `armed`.

The logical status of such a probe is derived from what its instances have
reported, and only when one of them reports.  So it outlives a replacement that
takes the instance away, it is what a managed agent said before or says
meanwhile, and it stays when the last armed instance leaves off while another
one has yet to report.  A run that spares the armed probes these steps
(`SparesArmed`) keeps an armed instance behind every one of them
(`armed_listening`).
-/
import LiveProbe.NativeServices
import LiveProbe.RoundTrip
import LiveProbe.ArmedAt

open JsString Schema Broker Protocol BrokerState

/-- What the identifiers of a request have to do to be plain. -/
theorem Limits.plain_admits {now : ℕ} {scope : ResourceScope} {r : Request}
    (agentId : ∀ input, r = .registerNativeAgent input → nul ∉ input.agentId)
    (instanceIds : ∀ agentId instances allowed, r = .replaceNativeInstances agentId instances allowed →
      ∀ i ∈ instances, nul ∉ i.instanceId) : Limits.plain.Admits now scope r where
  clock := trivial
  scope := trivial
  expiry := fun _ _ _ => trivial
  events := fun _ _ _ _ => trivial
  agentId := fun _ => agentId
  instanceIds := fun _ => instanceIds

/-- Requests that bring no status and no instance. -/
def Request.quiet : Request → Bool
  | .ingest _ | .ingestNative _ | .replaceNativeInstances .. => false
  | _ => true

namespace BrokerState

variable {cfg : Config} {L : Limits} {now : ℕ} {scope : ResourceScope} {r : Request}
  {s t : BrokerState}

/-- Where the status of an instance for a probe is recorded. -/
def statusKeyFor (id : JsString) (stored : StoredProbe) (i : NativeInstanceRecord) : JsString :=
  nativeStatusKey stored.scope id stored.probe.version i.agentId i.instanceId i.buildId

/-- An instance has reported that a probe is armed. -/
def ArmedOn (s : BrokerState) (id : JsString) (stored : StoredProbe) (i : NativeInstanceRecord) : Prop :=
  ∃ status, s.nativeStatuses.get? (statusKeyFor id stored i) = some status ∧ status.status = .armed

/-- The instances of a probe's service. -/
def hostsOf (s : BrokerState) (stored : StoredProbe) : List NativeInstanceRecord :=
  s.serviceInstances stored.scope stored.probe.serviceId

/-- A current instance of the probe's service is armed for it. -/
def Listening (s : BrokerState) (id : JsString) (stored : StoredProbe) : Prop :=
  ∃ i ∈ s.hostsOf stored, s.ArmedOn id stored i

/-- A live probe that reads `armed`. -/
structure ReadsArmed (s : BrokerState) (id : JsString) (stored : StoredProbe) : Prop where
  found : s.probes.get? id = some stored
  live : stored.expired = false
  armed : ∃ status, s.statuses.get? id = some status ∧ status.status = .armed

/-- Behind every probe of a native service that reads `armed` something listens. -/
def ArmedSound (s : BrokerState) : Prop :=
  ∀ id stored, s.ReadsArmed id stored → s.hostsOf stored ≠ [] → s.Listening id stored

/-! ### Changes of the probes -/

theorem Listening.congr {id : JsString} {stored : StoredProbe} (h : s.Listening id stored)
    (hi : t.nativeInstances = s.nativeInstances) (hn : t.nativeStatuses = s.nativeStatuses) :
    t.Listening id stored := by
  obtain ⟨i, hmem, status, hstatus, harmed⟩ := h
  refine ⟨i, ?_, status, hn ▸ hstatus, harmed⟩
  rw [hostsOf, serviceInstances, hi]
  exact hmem

/-- Where every probe that reads `armed` did so before and the native maps are
as they were. -/
theorem ArmedSound.shrink (h : ArmedSound s) (hi : t.nativeInstances = s.nativeInstances)
    (hn : t.nativeStatuses = s.nativeStatuses)
    (hreads : ∀ id stored, t.ReadsArmed id stored → s.ReadsArmed id stored) : ArmedSound t := by
  intro id stored hread hhosts
  rw [hostsOf, serviceInstances, hi] at hhosts
  exact (h id stored (hreads id stored hread) hhosts).congr hi hn

theorem ArmedSound.congr (h : ArmedSound s) (hp : t.probes = s.probes) (hs : t.statuses = s.statuses)
    (hi : t.nativeInstances = s.nativeInstances) (hn : t.nativeStatuses = s.nativeStatuses) :
    ArmedSound t := by
  refine h.shrink hi hn fun id stored hread => ?_
  obtain ⟨hfound, hlive, harmed⟩ := hread
  exact ⟨hp ▸ hfound, hlive, hs ▸ harmed⟩

theorem ArmedSound.expireProbe (h : ArmedSound s) (hi : Indexed s) {e : JsString × StoredProbe}
    (he : e ∈ s.probes.entries) (hdue : e.2.due now = true) : ArmedSound (s.expireProbe cfg now e) := by
  have hkey : e.1 = e.2.probe.id := (hi.probes _ _ (JsMap.get?_eq_some_iff.mpr he)).1
  rw [BrokerState.expireProbe, if_pos hdue]
  refine h.shrink rfl rfl fun id stored hread => ?_
  obtain ⟨hfound, hlive, status, hstatus, harmed⟩ := hread
  change (s.probes.set e.1 e.2.markExpired).get? id = some stored at hfound
  change (s.statuses.set e.2.probe.id _).get? id = some status at hstatus
  by_cases hid : id = e.1
  · rw [hid, JsMap.get?_set_self] at hfound
    cases hfound
    cases hlive
  · rw [JsMap.get?_set_of_ne hid] at hfound
    rw [JsMap.get?_set_of_ne (hkey ▸ hid)] at hstatus
    exact ⟨hfound, hlive, status, hstatus, harmed⟩

theorem ArmedSound.expireDueProbes (h : ArmedSound s) (hi : Indexed s) :
    ArmedSound (s.expireDueProbes cfg now) := by
  have hboth : Indexed (s.expireDueProbes cfg now) ∧ ArmedSound (s.expireDueProbes cfg now) :=
    expireDueProbes_induction (P := fun u => Indexed u ∧ ArmedSound u) ⟨hi, h⟩
      fun u e ⟨hu, hs⟩ he hdue => ⟨hu.expireProbe he hdue, hs.expireProbe hu he hdue⟩
  exact hboth.2

theorem ArmedSound.change (h : ArmedSound s) (hi : Indexed s) (hrec : Records cfg .schemas s)
    (hv : r.Valid) (hr : r.quiet = true) (hc : Change cfg now scope r s t) : ArmedSound t := by
  have hinstances : t.nativeInstances = s.nativeInstances := by
    rcases nativeInstances_change hrec.nativeAgents hv hc with heq | ⟨_, _, _, _, hreplace, -⟩
    · exact heq
    · rw [hreplace] at hr
      cases hr
  have hnative : t.nativeStatuses = s.nativeStatuses := by
    rcases nativeStatuses_change hc with heq | ⟨_, _, _, _, hingest, -⟩
    · exact heq
    · rw [hingest] at hr
      cases hr
  rcases statuses_change hc with hs | rfl | ⟨id, stored, -, -, -, hp, hs⟩ | ⟨_, _, _, hingest, -⟩ |
    ⟨_, _, _, _, _, _, hingest, -⟩
  · rcases probes_change hc with hp | rfl | ⟨draws, input, compiled, id, probe, -, -, hdrawn, hparsed,
      ht⟩ | ⟨id, stored, -, -, -, hp⟩
    · exact h.congr hp hs hinstances hnative
    · exact h.expireDueProbes hi
    · -- a new probe has no status yet
      have hid : probe.id = id := (newDefinition_parsed hparsed).1
      have hnone : s.statuses.get? id = none := by
        rw [← Option.not_isSome_iff_eq_none]
        intro hhas
        have hknown := hrec.known id (.inr hhas)
        rw [drawProbeId_fresh hdrawn] at hknown
        cases hknown
      refine h.shrink hinstances hnative fun id' stored hread => ?_
      obtain ⟨hfound, hlive, status, hstatus, harmed⟩ := hread
      rw [hs] at hstatus
      rw [ht] at hfound
      change (s.probes.set probe.id _).get? id' = some stored at hfound
      by_cases hne : id' = probe.id
      · rw [hne, hid, hnone] at hstatus
        cases hstatus
      · rw [JsMap.get?_set_of_ne hne] at hfound
        exact ⟨hfound, hlive, status, hstatus, harmed⟩
    · refine h.shrink hinstances hnative fun id' stored hread => ?_
      obtain ⟨hfound, hlive, status, hstatus, harmed⟩ := hread
      rw [hp, JsMap.get?_delete] at hfound
      split at hfound
      · cases hfound
      · exact ⟨hfound, hlive, status, hs ▸ hstatus, harmed⟩
  · exact h.expireDueProbes hi
  · refine h.shrink hinstances hnative fun id' stored hread => ?_
    obtain ⟨hfound, hlive, status, hstatus, harmed⟩ := hread
    rw [hp, JsMap.get?_delete] at hfound
    rw [hs, JsMap.get?_delete] at hstatus
    split at hfound
    · cases hfound
    · next hne =>
      rw [if_neg hne] at hstatus
      exact ⟨hfound, hlive, status, hstatus, harmed⟩
  · rw [hingest] at hr
    cases hr
  · rw [hingest] at hr
    cases hr

/-! ### Managed events -/

/-- A managed event arms no probe of native instances unless one of them is armed. -/
def SparesManaged (s : BrokerState) (e : ProbeEvent) : Prop :=
  e.isArmed = true → ∀ stored, s.probes.get? e.probeId = some stored → stored.expired = false →
    s.hostsOf stored ≠ [] → s.Listening e.probeId stored

theorem ArmedSound.ingestEvent (h : ArmedSound s) {e : ProbeEvent} (hspares : s.SparesManaged e) :
    ArmedSound (s.ingestEvent cfg e) := by
  obtain ⟨statuses, rfl | ⟨status, hstatus, rfl⟩, heq⟩ := ingestEvent_eq cfg s e
  · rw [heq]
    exact h.congr rfl rfl rfl rfl
  rw [heq]
  intro id stored hread hhosts
  obtain ⟨hfound, hlive, shown, hshown, harmed⟩ := hread
  change s.probes.get? id = some stored at hfound
  change (s.statuses.set e.probeId status).get? id = some shown at hshown
  by_cases hid : id = e.probeId
  · subst hid
    rw [JsMap.get?_set_self] at hshown
    obtain rfl := Option.some.inj hshown
    have harms : e.isArmed = true := by
      rw [ingestedStatus] at hstatus
      split at hstatus
      · next hbody =>
        obtain rfl := Option.some.inj hstatus
        rw [ProbeEvent.isArmed, hbody]
        exact decide_eq_true harmed
      · cases hstatus
    exact (hspares harms stored hfound hlive hhosts).congr rfl rfl
  · rw [JsMap.get?_set_of_ne hid] at hshown
    exact (h id stored ⟨hfound, hlive, shown, hshown, harmed⟩ hhosts).congr rfl rfl

theorem ArmedSound.ingestEvents (h : ArmedSound s) {l : List ProbeEvent}
    (hspares : ∀ e ∈ l, s.SparesManaged e) : ArmedSound (l.foldl (BrokerState.ingestEvent cfg) s) := by
  induction l generalizing s with
  | nil => exact h
  | cons e l ih =>
    refine ih (h.ingestEvent (hspares e List.mem_cons_self)) fun e' he' => ?_
    have hold := hspares e' (List.mem_cons_of_mem _ he')
    obtain ⟨statuses, -, heq⟩ := ingestEvent_eq cfg s e
    rw [heq]
    intro harms stored hfound hlive hhosts
    exact (hold harms stored hfound hlive hhosts).congr rfl rfl

/-! ### Native events -/

theorem mem_hostsOf {stored : StoredProbe} {i : NativeInstanceRecord} :
    i ∈ s.hostsOf stored ↔
      i ∈ s.nativeInstances.values ∧ i.scope = stored.scope ∧ i.serviceId = stored.probe.serviceId := by
  rw [hostsOf, serviceInstances, List.mem_filter, List.mem_filter, decide_eq_true_eq, decide_eq_true_eq,
    and_assoc]

/-- What listens has reported so. -/
theorem listening_iff {id : JsString} {stored : StoredProbe} :
    s.Listening id stored ↔ ∃ armed ∈ s.reported stored.scope stored id, armed.status = .armed := by
  constructor
  · rintro ⟨i, hi, status, hstatus, harmed⟩
    obtain ⟨hmem, hscope, hservice⟩ := mem_hostsOf.mp hi
    exact ⟨status, mem_reported.mpr (mem_instanceStatuses.mpr ⟨i, hmem, hscope, hservice, hstatus⟩), harmed⟩
  · rintro ⟨status, hmem, harmed⟩
    obtain ⟨i, hmem, hscope, hservice, hstatus⟩ := mem_instanceStatuses.mp (mem_reported.mp hmem)
    exact ⟨i, mem_hostsOf.mpr ⟨hmem, hscope, hservice⟩, status, hstatus, harmed⟩

/-- Once all instances have reported there is a derived status. -/
theorem derivedStatus_of_reported {stored : StoredProbe} {id : JsString}
    (hall : ∀ status ∈ s.instanceStatuses scope stored id, status.isSome = true)
    (hne : s.reported scope stored id ≠ []) : (s.derivedStatus scope stored id).isSome = true := by
  have hnone : (s.instanceStatuses scope stored id).any (·.isNone) = false := by
    rw [List.any_eq_false]
    intro status hmem
    rw [Option.isNone_iff_eq_none]
    intro hstatus
    have hsome := hall status hmem
    rw [hstatus] at hsome
    cases hsome
  by_cases harmed : ∃ armed ∈ s.reported scope stored id, armed.status = .armed
  · obtain ⟨armed, hmem, hname⟩ := harmed
    obtain ⟨status, hstatus, -⟩ := derivedStatus_of_armed hmem hname
    rw [hstatus]
    rfl
  · have hquiet : (s.reported scope stored id).filter (fun status => status.status = .armed) = [] :=
      List.filter_eq_nil_iff.mpr fun status hmem hname => harmed ⟨status, hmem, of_decide_eq_true hname⟩
    obtain ⟨chosen, hchosen⟩ := latestStatus_of_ne_nil hne
    unfold derivedStatus
    rw [Option.isSome_map]
    show (if _ then _ else latestStatus (s.reported scope stored id)).isSome = true
    rw [if_neg, hchosen]
    · rfl
    · rw [hnone, Bool.false_or]
      exact fun h => of_decide_eq_true h hquiet

/-- Where nothing is derived though an instance has reported, none is armed and
one has not reported. -/
theorem of_derivedStatus_none {stored : StoredProbe} {id : JsString}
    (hd : s.derivedStatus stored.scope stored id = none) (hne : s.reported stored.scope stored id ≠ []) :
    ¬ s.Listening id stored ∧
      ∃ i ∈ s.hostsOf stored, s.nativeStatuses.get? (statusKeyFor id stored i) = none := by
  constructor
  · rintro hlistening
    obtain ⟨armed, hmem, hname⟩ := listening_iff.mp hlistening
    obtain ⟨status, hstatus, -⟩ := derivedStatus_of_armed hmem hname
    rw [hd] at hstatus
    cases hstatus
  · by_contra hall
    push Not at hall
    have hsome := derivedStatus_of_reported (fun status hmem => ?_) hne
    · rw [hd] at hsome
      cases hsome
    · obtain ⟨i, hin, hscope, hservice, hget⟩ := mem_instanceStatuses.mp hmem
      have hreported := hall i (mem_hostsOf.mpr ⟨hin, hscope, hservice⟩)
      rw [← hget]
      exact Option.isSome_iff_ne_none.mpr hreported

/-- A native event that says something else than `armed` finds another instance
armed, or all the others have reported. -/
def SparesNative (scope : ResourceScope) (input : NativeIngestEnvelope) (s : BrokerState)
    (e : ProbeEvent) : Prop :=
  ∀ status stored, nativeStatusOf e = some status → status.status ≠ .armed →
    (s.nativeStatuses.get? (statusKeyOf scope input e)).any (keepsPrevious status) = false →
    s.ReadsArmed e.probeId stored →
      (∃ i ∈ s.hostsOf stored, statusKeyFor e.probeId stored i ≠ statusKeyOf scope input e ∧
        s.ArmedOn e.probeId stored i) ∨
      ∀ i ∈ s.hostsOf stored, statusKeyFor e.probeId stored i ≠ statusKeyOf scope input e →
        (s.nativeStatuses.get? (statusKeyFor e.probeId stored i)).isSome = true

/-- The keys of two probes differ. -/
theorem statusKeyFor_ne {id : JsString} {input : NativeIngestEnvelope} {e : ProbeEvent}
    (hid : nul ∉ id) (he : nul ∉ e.probeId) (hne : id ≠ e.probeId) (stored : StoredProbe)
    (i : NativeInstanceRecord) : statusKeyFor id stored i ≠ statusKeyOf scope input e := by
  intro heq
  obtain ⟨-, hparts⟩ := scopeKey_append_inj heq
  exact hne (append_nul_inj hid he hparts).1

/-- The status of an event is recorded, its logical status not yet derived. -/
theorem ArmedSound.withNativeStatus_of_ne (h : ArmedSound s) (hi : Indexed s)
    {input : NativeIngestEnvelope} {e : ProbeEvent} (he : nul ∉ e.probeId) {status : ProbeStatus}
    (hnative : t.nativeStatuses = s.nativeStatuses.set (statusKeyOf scope input e) status)
    (hinstances : t.nativeInstances = s.nativeInstances) {id : JsString} {stored : StoredProbe}
    (hread : s.ReadsArmed id stored) (hne : id ≠ e.probeId) (hhosts : t.hostsOf stored ≠ []) :
    t.Listening id stored := by
  rw [hostsOf, serviceInstances, hinstances] at hhosts
  obtain ⟨i, hmem, shown, hshown, harmed⟩ := h id stored hread hhosts
  refine ⟨i, ?_, shown, ?_, harmed⟩
  · rw [hostsOf, serviceInstances, hinstances]
    exact hmem
  · rw [hnative, JsMap.get?_set_of_ne (statusKeyFor_ne (nul_notMem_probeId (hi.probeId hread.found)) he hne
      stored i)]
    exact hshown

theorem ArmedSound.nativeEvent (h : ArmedSound s) (hi : Indexed s)
    (hok : s.nativeInstances.All (InstanceOk L)) {input : NativeIngestEnvelope} {e : ProbeEvent}
    {i : NativeInstanceRecord} {stored : StoredProbe}
    (hinst : s.nativeInstances.get? (nativeInstanceKey scope input.agentId input.instanceId) = some i)
    (htarget : isTarget input i = true) (hstored : s.probes.get? e.probeId = some stored)
    (hchecked : checkNativeEvent input scope stored e = .ok ()) (hspares : SparesNative scope input s e) :
    ArmedSound (s.ingestNativeEvent cfg scope input e) := by
  have hnul : nul ∉ e.probeId := nul_notMem_probeId (hi.probeId hstored)
  obtain ⟨hscope, -, -⟩ := checkNativeEvent_eq_ok hchecked
  subst hscope
  obtain heq | ⟨status, hstatus, hkept, heq⟩ := ingestNativeEvent_eq cfg stored.scope input s e
  · rw [heq]
    exact h.congr rfl rfl rfl rfl
  rw [heq]
  -- the state in which the status is recorded
  have hreported : status ∈ ((s.appendEvent cfg e).withNativeStatus stored.scope input
      (statusKeyOf stored.scope input e) status).reported stored.scope stored e.probeId :=
    mem_reported_withNativeStatus (s := s.appendEvent cfg e) hok hinst htarget hchecked status
  have hset : ((s.appendEvent cfg e).withNativeStatus stored.scope input
      (statusKeyOf stored.scope input e) status).nativeStatuses =
        s.nativeStatuses.set (statusKeyOf stored.scope input e) status := rfl
  have hprobes : ((s.appendEvent cfg e).withNativeStatus stored.scope input
      (statusKeyOf stored.scope input e) status).probes = s.probes := rfl
  have hstatuses : ((s.appendEvent cfg e).withNativeStatus stored.scope input
      (statusKeyOf stored.scope input e) status).statuses = s.statuses := rfl
  have hinstances : ((s.appendEvent cfg e).withNativeStatus stored.scope input
      (statusKeyOf stored.scope input e) status).nativeInstances = s.nativeInstances := rfl
  generalize (s.appendEvent cfg e).withNativeStatus stored.scope input (statusKeyOf stored.scope input e)
    status = u at hreported hset hprobes hstatuses hinstances ⊢
  have hstoredU : u.probes.get? e.probeId = some stored := hprobes ▸ hstored
  have hothers : ∀ id other, s.ReadsArmed id other → id ≠ e.probeId → u.hostsOf other ≠ [] →
      u.Listening id other := fun id other hread hne hhosts =>
    h.withNativeStatus_of_ne hi hnul hset hinstances hread hne hhosts
  rw [deriveNativeLogicalStatus_of_stored hstoredU rfl]
  intro id other hread hhosts
  obtain ⟨hfound, hlive, shown, hshown, harmed⟩ := hread
  by_cases hexpired : stored.expired = true
  · -- an expired probe keeps its logical status
    rw [if_pos hexpired] at hfound hshown hhosts ⊢
    refine hothers id other ⟨hprobes ▸ hfound, hlive, shown, hstatuses ▸ hshown, harmed⟩ ?_ hhosts
    rintro rfl
    obtain rfl := Option.some.inj (hstoredU.symm.trans hfound)
    rw [hexpired] at hlive
    cases hlive
  rw [if_neg hexpired] at hfound hshown hhosts ⊢
  rcases hd : u.derivedStatus stored.scope stored e.probeId with - | derived
  · -- nothing is derived: the status stays
    rw [hd] at hfound hshown hhosts
    have hread : s.ReadsArmed id other := ⟨hprobes ▸ hfound, hlive, shown, hstatuses ▸ hshown, harmed⟩
    by_cases hid : id = e.probeId
    · subst hid
      obtain rfl := Option.some.inj (hstoredU.symm.trans hfound)
      obtain ⟨hdeaf, j, hj, hunheard⟩ := of_derivedStatus_none hd (List.ne_nil_of_mem hreported)
      have hquiet : status.status ≠ .armed := fun hname =>
        hdeaf (listening_iff.mpr ⟨status, hreported, hname⟩)
      have hkeep : ∀ k, k ≠ statusKeyOf stored.scope input e →
          u.nativeStatuses.get? k = s.nativeStatuses.get? k := fun k hk => by
        rw [hset, JsMap.get?_set_of_ne hk]
      have hhostsOf : u.hostsOf stored = s.hostsOf stored := by
        rw [hostsOf, hostsOf, serviceInstances, serviceInstances, hinstances]
      exfalso
      rcases hspares status stored hstatus hquiet hkept hread with ⟨i, hi, hkey, armed, hget, hname⟩ | hall
      · -- another instance is armed
        exact hdeaf ⟨i, hhostsOf ▸ hi, armed, (hkeep _ hkey).trans hget, hname⟩
      · -- all instances have reported
        by_cases hkey : statusKeyFor e.probeId stored j = statusKeyOf stored.scope input e
        · rw [hkey, hset, JsMap.get?_set_self] at hunheard
          cases hunheard
        · have hsome := hall j (hhostsOf ▸ hj) hkey
          rw [← hkeep _ hkey, hunheard] at hsome
          cases hsome
    · exact hothers id other hread hid hhosts
  · -- a derived status is one that was reported
    rw [hd] at hfound hshown hhosts
    change (u.statuses.set e.probeId derived).get? id = some shown at hshown
    change u.probes.get? id = some other at hfound
    by_cases hid : id = e.probeId
    · subst hid
      obtain rfl := Option.some.inj (hstoredU.symm.trans hfound)
      rw [JsMap.get?_set_self] at hshown
      obtain rfl := Option.some.inj hshown
      obtain ⟨chosen, hchosen, hsame, -⟩ := derivedStatus_eq_some hd
      have hlistening : u.Listening e.probeId stored :=
        listening_iff.mpr ⟨chosen, hchosen, hsame.symm.trans harmed⟩
      exact hlistening.congr rfl rfl
    · rw [JsMap.get?_set_of_ne hid] at hshown
      have hread : s.ReadsArmed id other := ⟨hprobes ▸ hfound, hlive, shown, hstatuses ▸ hshown, harmed⟩
      exact (hothers id other hread hid hhosts).congr rfl rfl

/-- Every event of a batch is spared where it is taken in. -/
def SparesAll (cfg : Config) (scope : ResourceScope) (input : NativeIngestEnvelope) :
    List ProbeEvent → BrokerState → Prop
  | [], _ => True
  | e :: rest, s =>
    SparesNative scope input s e ∧ SparesAll cfg scope input rest (s.ingestNativeEvent cfg scope input e)

theorem ArmedSound.nativeEvents (h : ArmedSound s) (hi : Indexed s) (hok : s.nativeInstances.All (InstanceOk L))
    {input : NativeIngestEnvelope} (hv : (Request.ingestNative input).Valid) {i : NativeInstanceRecord}
    (hinst : s.nativeInstances.get? (nativeInstanceKey scope input.agentId input.instanceId) = some i)
    (htarget : isTarget input i = true) {events : List ProbeEvent}
    (hevents : ∀ e ∈ events, e ∈ input.events ∧ ∃ stored, s.probes.get? e.probeId = some stored ∧
      checkNativeEvent input scope stored e = .ok ())
    (hspares : SparesAll cfg scope input events s) :
    ArmedSound (events.foldl (ingestNativeEvent cfg scope input) s) := by
  induction events generalizing s with
  | nil => exact h
  | cons e events ih =>
    obtain ⟨hmem, stored, hstored, hchecked⟩ := hevents e List.mem_cons_self
    have hc : Change cfg 0 scope (.ingestNative input) s (s.ingestNativeEvent cfg scope input e) :=
      .nativeEvent input i stored e rfl hmem hinst htarget hstored hchecked
    have hinstances : (s.ingestNativeEvent cfg scope input e).nativeInstances = s.nativeInstances :=
      nativeInstances_ingestNativeEvent input s e
    refine ih (h.nativeEvent hi hok hinst htarget hstored hchecked hspares.1) (hi.change hv hc) ?_ ?_ ?_
      hspares.2
    · rw [hinstances]
      exact hok
    · rw [hinstances]
      exact hinst
    · intro e' he'
      rw [probes_ingestNativeEvent]
      exact hevents e' (List.mem_cons_of_mem _ he')

theorem ArmedSound.ingestNative (h : ArmedSound s) (hi : Indexed s) (hok : s.nativeInstances.All (InstanceOk L))
    {input : NativeIngestEnvelope} (hv : (Request.ingestNative input).Valid)
    (hspares : ∀ t accepted, s.nativeBatch now scope input = some (t, accepted) →
      SparesAll cfg scope input accepted t) :
    ArmedSound (s.ingestNative cfg now input scope).1 := by
  obtain ⟨-, _, _, heq⟩ | ⟨t, accepted, hbatch, heq⟩ := ingestNative_batch cfg now scope input s
  · rw [heq]
    exact h.congr rfl rfl rfl rfl
  rw [heq]
  have hall := hspares t accepted hbatch
  obtain ⟨⟨_, _, ht⟩, ⟨i, hinst, htarget⟩, hevents⟩ := nativeBatch_eq_some hbatch
  have hstart : ArmedSound t := h.congr (by rw [ht]) (by rw [ht]) (by rw [ht]) (by rw [ht])
  have hindexed : Indexed t := by
    rw [ht]
    exact hi.congr rfl
  have hstored := hstart.nativeEvents hindexed (by rw [ht]; exact hok) hv (by rw [ht]; exact hinst) htarget
    (by rw [ht]; exact hevents) hall
  generalize accepted.foldl (ingestNativeEvent cfg scope input) t = u at hstored ⊢
  rcases touchNativeService_eq now scope input u with htouch | ⟨_, _, htouch⟩
  · rw [htouch]
    exact hstored
  · rw [htouch]
    exact hstored.congr rfl rfl rfl rfl

/-! ### Replacements -/

/-- An instance that the report of an agent leaves where it is. -/
def Outlasts (scope : ResourceScope) (agentId : JsString) (instances : List NativeInstance)
    (i : NativeInstanceRecord) : Prop :=
  ¬ (i.scope = scope ∧ i.agentId = agentId) ∧
    ∀ j ∈ instances, nativeInstanceKey i.scope i.agentId i.instanceId ≠
      nativeInstanceKey scope agentId j.instanceId

/-- The instances after the report of an agent: those that it leaves, and those reported. -/
def Succeeds (s : BrokerState) (scope : ResourceScope) (agent : NativeAgentRecord) (agentId : JsString)
    (instances : List NativeInstance) (i : NativeInstanceRecord) : Prop :=
  (i ∈ s.nativeInstances.values ∧ Outlasts scope agentId instances i) ∨
    ∃ j ∈ instances, instanceRecord scope agent agentId j = i

theorem nodup_of_checked {owned : JsString → Bool} {allowed ids : List JsString}
    {instances : List NativeInstance} (h : checkInstances owned allowed ids instances = .ok ()) :
    (instances.map (·.instanceId)).Nodup ∧ ∀ i ∈ instances, i.instanceId ∉ ids := by
  induction instances generalizing ids with
  | nil => exact ⟨List.nodup_nil, fun i hi => absurd hi List.not_mem_nil⟩
  | cons i instances ih =>
    unfold checkInstances at h
    split at h
    · cases h
    split at h
    · cases h
    next hnew =>
    split at h
    · cases h
    obtain ⟨hnodup, hids⟩ := ih h
    refine ⟨List.nodup_cons.mpr ⟨fun hmem => ?_, hnodup⟩, fun j hj => ?_⟩
    · obtain ⟨j, hj, heq⟩ := List.mem_map.mp hmem
      exact hids j hj (heq ▸ List.mem_cons_self)
    · rcases List.mem_cons.mp hj with rfl | hj
      · exact hnew
      · exact fun hmem => hids j hj (List.mem_cons_of_mem _ hmem)

theorem nativeInstanceKey_instance {agentId x y : JsString}
    (h : nativeInstanceKey scope agentId x = nativeInstanceKey scope agentId y) : x = y := by
  have hcons := List.append_cancel_left h
  exact (List.cons.inj hcons).2

/-- What the loop that stores reported instances leaves under a key. -/
theorem get?_storeInstances_of_ne {agent : NativeAgentRecord} {agentId k : JsString}
    {instances : List NativeInstance} {m : JsMap JsString NativeInstanceRecord}
    (h : ∀ j ∈ instances, k ≠ nativeInstanceKey scope agentId j.instanceId) :
    (storeInstances scope agent agentId instances m).get? k = m.get? k := by
  induction instances generalizing m with
  | nil => rfl
  | cons i instances ih =>
    refine (ih fun j hj => h j (List.mem_cons_of_mem _ hj)).trans ?_
    exact JsMap.get?_set_of_ne (h i List.mem_cons_self) _

theorem get?_storeInstances_of_mem {agent : NativeAgentRecord} {agentId : JsString}
    {instances : List NativeInstance} (hnodup : (instances.map (·.instanceId)).Nodup)
    {m : JsMap JsString NativeInstanceRecord} {j : NativeInstance} (hj : j ∈ instances) :
    (storeInstances scope agent agentId instances m).get? (nativeInstanceKey scope agentId j.instanceId) =
      some (instanceRecord scope agent agentId j) := by
  induction instances generalizing m with
  | nil => cases hj
  | cons i instances ih =>
    rw [List.map_cons, List.nodup_cons] at hnodup
    rcases List.mem_cons.mp hj with rfl | hj
    · have hfirst : ∀ k ∈ instances,
          nativeInstanceKey scope agentId j.instanceId ≠ nativeInstanceKey scope agentId k.instanceId :=
        fun k hk heq => hnodup.1 (List.mem_map.mpr ⟨k, hk, (nativeInstanceKey_instance heq).symm⟩)
      exact (get?_storeInstances_of_ne hfirst).trans (JsMap.get?_set_self _ _ _)
    · exact ih hnodup.2 hj

/-- **The instances after a replacement.** -/
theorem mem_replacedInstances (hok : s.nativeInstances.All (InstanceOk L)) {agentId : JsString}
    {allowed : List JsString} {instances : List NativeInstance} (agent : NativeAgentRecord)
    (hchecked : checkInstances (s.ownedByAnother scope agentId) allowed [] instances = .ok ())
    {i : NativeInstanceRecord} :
    i ∈ (s.replacedInstances scope agent agentId instances).values ↔
      s.Succeeds scope agent agentId instances i := by
  obtain ⟨hnodup, -⟩ := nodup_of_checked hchecked
  have hdropped : ∀ k, (s.dropInstances scope agentId (instances.map (·.instanceId))).nativeInstances.get? k =
      (s.nativeInstances.get? k).filter fun i =>
        !(i.scope = scope && i.agentId = agentId && i.instanceId ∉ instances.map (·.instanceId)) :=
    fun k => JsMap.get?_filter _ _ k
  constructor
  · intro hmem
    obtain ⟨k, hk⟩ := JsMap.mem_values_iff.mp hmem
    have hget := JsMap.get?_eq_some_iff.mpr hk
    by_cases hnew : ∃ j ∈ instances, k = nativeInstanceKey scope agentId j.instanceId
    · obtain ⟨j, hj, rfl⟩ := hnew
      right
      exact ⟨j, hj, Option.some.inj ((get?_storeInstances_of_mem hnodup hj).symm.trans hget)⟩
    · left
      have hother : ∀ j ∈ instances, k ≠ nativeInstanceKey scope agentId j.instanceId :=
        fun j hj heq => hnew ⟨j, hj, heq⟩
      rw [replacedInstances, get?_storeInstances_of_ne hother, hdropped, Option.filter_eq_some_iff] at hget
      have hkey := (hok k i hget.1).key
      refine ⟨JsMap.mem_values_iff.mpr ⟨k, JsMap.get?_eq_some_iff.mp hget.1⟩, ?_, hkey ▸ hother⟩
      rintro ⟨hscope, hagent⟩
      have hgone : i.instanceId ∉ instances.map (·.instanceId) := by
        intro hmem
        obtain ⟨j, hj, heq⟩ := List.mem_map.mp hmem
        refine hother j hj ?_
        rw [hkey, hscope, hagent, heq]
      have hstays := hget.2
      rw [decide_eq_true hscope, decide_eq_true hagent, decide_eq_true hgone] at hstays
      cases hstays
  · rintro (⟨hmem, hother, hkeys⟩ | ⟨j, hj, rfl⟩)
    · obtain ⟨k, hk⟩ := JsMap.mem_values_iff.mp hmem
      have hget := JsMap.get?_eq_some_iff.mpr hk
      have hkey := (hok k i hget).key
      refine JsMap.mem_values_iff.mpr ⟨k, JsMap.get?_eq_some_iff.mp ?_⟩
      rw [replacedInstances, get?_storeInstances_of_ne (hkey ▸ hkeys), hdropped, hget,
        Option.filter_some, if_pos]
      rw [Bool.not_eq_true', Bool.and_eq_false_iff]
      left
      rw [← Bool.not_eq_true, Bool.and_eq_true, decide_eq_true_eq, decide_eq_true_eq]
      exact hother
    · exact JsMap.mem_values_iff.mpr ⟨_, JsMap.get?_eq_some_iff.mp (get?_storeInstances_of_mem hnodup hj)⟩

/-- A replacement that is carried out leaves an armed instance to every armed
probe whose service has instances afterwards. -/
def SparesReplacement (s : BrokerState) (scope : ResourceScope) (agentId : JsString)
    (instances : List NativeInstance) (allowed : List JsString) : Prop :=
  ∀ agent, s.nativeAgents.get? (nativeAgentKey scope agentId) = some agent →
    checkInstances (s.ownedByAnother scope agentId) allowed [] instances = .ok () →
    ∀ id stored, s.ReadsArmed id stored → stored.scope = scope →
      (∃ i, s.Succeeds scope agent agentId instances i ∧ i.scope = scope ∧
        i.serviceId = stored.probe.serviceId) →
      ∃ i, s.Succeeds scope agent agentId instances i ∧ i.scope = scope ∧
        i.serviceId = stored.probe.serviceId ∧ s.ArmedOn id stored i

theorem ArmedSound.replacement (h : ArmedSound s) (hr : Records cfg L s) (now : ℕ) {agentId : JsString}
    {instances : List NativeInstance} {allowed : List JsString}
    (hv : (Request.replaceNativeInstances agentId instances allowed).Valid)
    (hspares : s.SparesReplacement scope agentId instances allowed) :
    ArmedSound (s.replaceNativeInstances now agentId instances scope allowed).1 := by
  rcases hagent : s.nativeAgents.get? (nativeAgentKey scope agentId) with - | agent
  · simp only [replaceNativeInstances, hagent]
    exact h
  rcases hchecked : checkInstances (s.ownedByAnother scope agentId) allowed [] instances with e | ⟨⟩
  · simp only [replaceNativeInstances, hagent, hchecked]
    exact h
  obtain ⟨changed, heq⟩ := replaceNativeInstances_ok now hr.nativeAgents hv hagent hchecked
  rw [heq]
  have hmem : ∀ i, i ∈ (s.replacedInstances scope agent agentId instances).values ↔
      s.Succeeds scope agent agentId instances i :=
    fun i => mem_replacedInstances hr.nativeInstances agent hchecked
  intro id stored hread hhosts
  have hold : s.ReadsArmed id stored := ⟨hread.found, hread.live, hread.armed⟩
  by_cases hscope : stored.scope = scope
  · obtain ⟨i, hi⟩ := List.exists_mem_of_ne_nil _ hhosts
    obtain ⟨hin, hown, hservice⟩ := mem_hostsOf.mp hi
    obtain ⟨j, hj, hown', hservice', harmed⟩ := hspares agent hagent hchecked id stored hold hscope
      ⟨i, (hmem i).mp hin, hown.trans hscope, hservice⟩
    exact ⟨j, mem_hostsOf.mpr ⟨(hmem j).mpr hj, hown'.trans hscope.symm, hservice'⟩, harmed⟩
  · -- the instances of other scopes stay
    have hsame := serviceInstances_replaced hscope hr.nativeInstances agent agentId instances
      stored.probe.serviceId
    change ({ s with nativeInstances := s.replacedInstances scope agent agentId instances } :
      BrokerState).serviceInstances stored.scope stored.probe.serviceId ≠ [] at hhosts
    rw [hsame] at hhosts
    obtain ⟨i, hi, harmed⟩ := h id stored hold hhosts
    refine ⟨i, ?_, harmed⟩
    change i ∈ ({ s with nativeInstances := s.replacedInstances scope agent agentId instances } :
      BrokerState).serviceInstances stored.scope stored.probe.serviceId
    rw [hsame]
    exact hi

/-! ### Requests and restores -/

/-- What a run does not do to an armed probe.  No managed agent arms a probe of
native instances none of which is armed, no native event takes the last armed
instance while another has yet to report, no replacement takes the armed
instances and leaves others, and no probe is drawn that a native status of
another scope still names. -/
def SparesArmed (cfg : Config) (s : BrokerState) : ProcessEvent → Prop
  | .request now scope (.ingest input) =>
    checkEvents input scope (s.expireDueProbes cfg now) input.events = .ok () →
      ∀ e ∈ input.events, (s.expireDueProbes cfg now).SparesManaged e
  | .request now scope (.ingestNative input) =>
    ∀ t accepted, s.nativeBatch now scope input = some (t, accepted) →
      SparesAll cfg scope input accepted t
  | .request _ scope (.replaceNativeInstances agentId instances allowed) =>
    s.SparesReplacement scope agentId instances allowed
  | .request _ scope (.createProbe draws _) => s.FreshDraws scope draws
  | _ => True

theorem ArmedSound.ingest (h : ArmedSound s) (hi : Indexed s) {input : IngestInput}
    (hspares : SparesArmed cfg s (.request now scope (.ingest input))) :
    ArmedSound (s.ingest cfg now input scope).1 := by
  have hx : ArmedSound (s.expireDueProbes cfg now) := h.expireDueProbes hi
  simp only [SparesArmed, BrokerState.ingest] at hspares ⊢
  rcases hok : checkEvents input scope (s.expireDueProbes cfg now) input.events with e | ⟨⟩
  · exact hx
  · have hagent : ArmedSound ((s.expireDueProbes cfg now).ingestAgent now input scope) :=
      hx.congr rfl rfl rfl rfl
    exact hagent.ingestEvents (hspares hok)

/-- **A request keeps an armed instance behind every armed probe.** -/
theorem ArmedSound.handle (h : ArmedSound s) (hi : Indexed s) (hr : Records cfg .schemas s) (hv : r.Valid)
    (hspares : SparesArmed cfg s (.request now scope r)) : ArmedSound (s.handle cfg now scope r).1 := by
  have quiet : r.quiet = true → ArmedSound (s.handle cfg now scope r).1 := fun hq =>
    hr.changes_induction hi hv h (fun u v hu hrec hI hc => hI.change hu hrec hv hq hc)
      (handle_changes cfg now scope r s)
  cases r with
  | ingest input => exact h.ingest hi hspares
  | ingestNative input => exact h.ingestNative hi hr.nativeInstances hv hspares
  | replaceNativeInstances agentId instances allowed => exact h.replacement hr now hv hspares
  | _ => exact quiet rfl

/-- The native statuses of the probes that exist are restored. -/
theorem ArmedSound.refill (h : ArmedSound s) (hi : Indexed s) (hr : Records cfg .plain s) (ho : OwnKeys s)
    (t : BrokerState) {n : ℕ} {b : BrokerSnapshot} (hb : s.snapshot n = some b) :
    ArmedSound (t.refill cfg b) := by
  have hprobes : (t.refill cfg b).probes = s.probes := congrArg Prod.fst (core_refill cfg t hi hb)
  have hstatuses := statuses_refill t hr hb
  have hinstances := nativeInstances_refill t hr hb
  have hnative := nativeStatuses_refill t hr (plainNativeKeys_of_records hr trivial ho) hb
  intro id stored hread hhosts
  obtain ⟨hfound, hlive, shown, hshown, harmed⟩ := hread
  rw [hprobes] at hfound
  rw [hstatuses] at hshown
  rw [hostsOf, serviceInstances, hinstances] at hhosts
  obtain ⟨i, hmem, status, hstatus, hname⟩ := h id stored ⟨hfound, hlive, shown, hshown, harmed⟩ hhosts
  refine ⟨i, ?_, status, ?_, hname⟩
  · rw [hostsOf, serviceInstances, hinstances]
    exact hmem
  · have hnames : s.namesProbe (statusKeyFor id stored i) = true := by
      rw [namesProbe, statusKeyFor, nativeStatusKey, splitNul_append (nul_notMem_resourceScopeKey _),
        splitNul_append (nul_notMem_probeId (hi.probeId hfound))]
      show s.probes.has id = true
      rw [JsMap.has, hfound]
      rfl
    rw [hnative, JsMap.get?_filter, hstatus]
    exact if_pos hnames

end BrokerState

/-! ### Every run -/

namespace Process

variable {cfg : Config}

/-- **Where a probe of a native service reads `armed`, something listens**, in
runs that spare the armed probes. -/
theorem armed_listening {p : Process}
    (h : Reached (next cfg) (fun p e => Valid e ∧ Within .plain e ∧ SparesArmed cfg p.state e) {} p) :
    ArmedSound p.state := by
  refine (invariant_since (I := fun s => (Indexed s ∧ Records cfg .schemas s) ∧
    (Records cfg .plain s ∧ OwnKeys s) ∧ ArmedSound s) ?_ ?_ ?_ ?_ h).2.2
  · exact ⟨⟨.init, .init⟩, ⟨.init, .empty⟩, fun _ _ hread => by cases hread.found⟩
  · rintro p now scope r ⟨⟨hi, hr⟩, ⟨hplain, ho⟩, harmed⟩ ⟨hv, hL, hspares⟩
    have hL' := Limits.schemas_admits now scope r
    refine ⟨⟨hi.handle hv, hr.handle hi hv hL'⟩, ⟨hplain.handle hi hv hL, ?_⟩,
      harmed.handle hi hr hv hspares⟩
    refine ho.handle hi hv fun draws input hcreate => ?_
    subst hcreate
    exact hspares
  · rintro p now ⟨⟨hi, hr⟩, ⟨hplain, ho⟩, harmed⟩ -
    exact ⟨⟨hi.expireDueProbes, hr.expireDueProbes hi trivial⟩,
      ⟨hplain.expireDueProbes hi trivial, ho.expireDueProbes⟩, harmed.expireDueProbes hi⟩
  · rintro p e now - - s t b n ⟨⟨hi, hr⟩, ⟨hplain, ho⟩, harmed⟩ hb
    have hback : Indexed (t.refill cfg b) := Indexed.refill (Broker.snapshotSchema_eq_some.mp hb)
    refine ⟨⟨?_, hr.loadSnapshot t hi hb trivial⟩, ⟨hplain.loadSnapshot t hi hb trivial, ?_⟩, ?_⟩
    · rw [loadSnapshot_of_snapshot hb]
      exact hback.expireDueProbes
    · rw [loadSnapshot_of_snapshot hb]
      exact (ho.refill t hi hplain trivial hb).expireDueProbes
    · rw [loadSnapshot_of_snapshot hb]
      exact (harmed.refill hi hplain ho t hb).expireDueProbes hback

end Process

/-! ### A counter that is armed -/

namespace BrokerState

/-- Events that arm their probes take nothing away. -/
theorem sparesAll_of_armed {cfg : Config} {scope : ResourceScope} {input : NativeIngestEnvelope}
    {l : List ProbeEvent} (h : ∀ e ∈ l, e.isArmed = true) (s : BrokerState) :
    SparesAll cfg scope input l s := by
  induction l generalizing s with
  | nil => trivial
  | cons e l ih =>
    refine ⟨fun status stored hstatus hquiet => ?_, ih (fun e' he' => h e' (List.mem_cons_of_mem _ he')) _⟩
    have harms := h e List.mem_cons_self
    unfold nativeStatusOf at hstatus
    split at hstatus
    · next name detail metadata hbody =>
      obtain rfl := Option.some.inj hstatus
      rw [ProbeEvent.isArmed, hbody] at harms
      exact absurd (of_decide_eq_true harms) hquiet
    · cases hstatus

end BrokerState

namespace Sample

/-- The instance reports that the counter is armed. -/
def armedSource : NativeIngestEnvelope := { source with events := [siteStatus .armed siteEarly] }

def armedHosted : Process :=
  Process.next config hosted (.request 1000 scope (.ingestNative armedSource))

theorem armedSource_valid : Protocol.nativeIngestEnvelopeSchema armedSource = some armedSource := by
  have hids : Protocol.agentIdSchema source.agentId = some source.agentId ∧
      Protocol.serviceIdSchema source.serviceId = some source.serviceId ∧
      Protocol.instanceIdSchema source.instanceId = some source.instanceId ∧
      Protocol.buildIdSchema source.buildId = some source.buildId ∧
      Protocol.nativeAgentStatusSchema source.agentStatus = some source.agentStatus := by
    decide
  obtain ⟨h₁, h₂, h₃, h₄, h₅⟩ := hids
  have hevents : boundedArray Protocol.nativeProbeEventSchema 0 1000 armedSource.events =
      some armedSource.events :=
    boundedArray_self.mpr ⟨fun e he => by
      rw [List.mem_singleton.mp he]
      exact (siteStatus_ofKey .armed siteTs_parsed.1).parsed, by decide, by decide⟩
  simp only [armedSource] at hevents ⊢
  simp only [Protocol.nativeIngestEnvelopeSchema, h₁, h₂, h₃, h₄, h₅, hevents, Option.bind_eq_bind,
    Option.bind_some, Option.pure_def]

/-- The counter, its agent, its instance and the status of it. -/
theorem armedHosted_reached :
    Reached (Process.next config)
      (fun p e => Process.Valid e ∧ Process.Within .plain e ∧ SparesArmed config p.state e) {}
      armedHosted := by
  have hvalid : Protocol.nativeAgentRegistrationSchema (registration agent) = some (registration agent) ∧
      Protocol.agentIdSchema agent = some agent ∧
      Protocol.nativeInstanceSetSchema [nativeInstance instanceA build] =
        some [nativeInstance instanceA build] := by
    decide
  have hnul : nul ∉ agent ∧ nul ∉ instanceA := by decide
  refine .step _ (.step _ (.step _ (.step _ .init ⟨counter_valid 1 (List.mem_cons_self ..), ?_, ?_⟩)
    ⟨hvalid.1, ?_, trivial⟩) ⟨hvalid.2, ?_, ?_⟩) ⟨armedSource_valid, ?_, ?_⟩
  · exact Limits.plain_admits (fun _ h => by cases h) (fun _ _ _ h => by cases h)
  · exact fun n _ sc rest hk => by cases hk
  · refine Limits.plain_admits (fun input h => ?_) (fun _ _ _ h => by cases h)
    obtain rfl := Request.registerNativeAgent.inj h
    exact hnul.1
  · refine Limits.plain_admits (fun _ h => by cases h) (fun _ instances _ h i hi => ?_)
    obtain ⟨-, rfl, -⟩ := Request.replaceNativeInstances.inj h
    rw [List.mem_singleton.mp hi]
    exact hnul.2
  · -- nothing reads `armed` yet
    rintro a - - id stored ⟨-, -, status, hstatus, -⟩ - -
    cases hstatus
  · exact Limits.plain_admits (fun _ h => by cases h) (fun _ _ _ h => by cases h)
  · intro t accepted hbatch
    refine sparesAll_of_armed (fun e he => ?_) t
    obtain ⟨-, -, hevents⟩ := nativeBatch_eq_some hbatch
    rw [List.mem_singleton.mp (hevents e he).1]
    rfl

/-- The counter reads `armed`, and its instance listens. -/
theorem armedHosted_listening :
    ∃ stored, armedHosted.state.ReadsArmed (draw '1' 0) stored ∧
      armedHosted.state.Listening (draw '1' 0) stored := by
  have hreads : (armedHosted.state.probes.get? (draw '1' 0)).any (fun stored =>
      !stored.expired && decide (armedHosted.state.hostsOf stored ≠ [])) = true ∧
      (armedHosted.state.statuses.get? (draw '1' 0)).any (fun status => status.status = .armed) = true := by
    decide +kernel
  obtain ⟨stored, hstored, hlive⟩ := (Option.any_eq_true _ _).mp hreads.1
  obtain ⟨status, hstatus, harmed⟩ := (Option.any_eq_true _ _).mp hreads.2
  rw [Bool.and_eq_true, Bool.not_eq_true', decide_eq_true_eq] at hlive
  have hread : armedHosted.state.ReadsArmed (draw '1' 0) stored :=
    ⟨hstored, hlive.1, status, hstatus, of_decide_eq_true harmed⟩
  exact ⟨stored, hread, Process.armed_listening armedHosted_reached _ _ hread hlive.2⟩

/-- The instance is rebuilt, and the counter still reads `armed`. -/
def rebuilt : Process :=
  Process.next config armedHosted
    (.request 1000 scope (.replaceNativeInstances agent [nativeInstance instanceA (js "0123abce")] [js "*"]))

theorem rebuilt_unheard :
    ∃ p, Reached (Process.next config) (fun _ e => Process.Valid e) {} p ∧ ¬ ArmedSound p.state := by
  have hvalid : Protocol.agentIdSchema agent = some agent ∧
      Protocol.nativeInstanceSetSchema [nativeInstance instanceA (js "0123abce")] =
        some [nativeInstance instanceA (js "0123abce")] := by
    decide
  have hreads : (rebuilt.state.probes.get? (draw '1' 0)).any (fun stored =>
      !stored.expired && decide (rebuilt.state.hostsOf stored ≠ []) &&
        (rebuilt.state.hostsOf stored).all fun i =>
          (rebuilt.state.nativeStatuses.get? (statusKeyFor (draw '1' 0) stored i)).isNone) = true ∧
      (rebuilt.state.statuses.get? (draw '1' 0)).any (fun status => status.status = .armed) = true := by
    decide +kernel
  obtain ⟨stored, hstored, hlive⟩ := (Option.any_eq_true _ _).mp hreads.1
  obtain ⟨status, hstatus, harmed⟩ := (Option.any_eq_true _ _).mp hreads.2
  rw [Bool.and_eq_true, Bool.and_eq_true, Bool.not_eq_true', decide_eq_true_eq] at hlive
  refine ⟨rebuilt, .step _ (armedHosted_reached.mono fun p e h => h.1) hvalid, fun hsound => ?_⟩
  obtain ⟨i, hi, reported, hreported, -⟩ := hsound _ stored
    ⟨hstored, hlive.1.1, status, hstatus, of_decide_eq_true harmed⟩ hlive.1.2
  have hnone := List.all_eq_true.mp hlive.2 i hi
  rw [hreported] at hnone
  cases hnone

end Sample
