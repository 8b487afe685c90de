/-
LiveProbe/NativeVerdict.lean

Whether an assignment has ended, after the status events of its sites.

The statuses that one instance reports for a probe share one record, whichever
physical site they come from.  The record is a register with a timestamp guard
and a latch (`ended_deliver`), so how the events are grouped into batches makes
no difference, but their order may: a stale status does not end a newer
assignment, and a newer status does not bring an ended one back.  The verdict is
that of the events alone exactly when some event that ends the assignment is
not older than any event that does not (`verdict_of_arrivals`).
-/
import LiveProbe.Latch
import LiveProbe.NativeStatus
import LiveProbe.Process

open JsString Schema Broker Protocol BrokerState

/-! ### Events of a key -/

namespace ProbeEvent

/-- Whether a status event ends the assignment of its probe. -/
def endsAssignment (e : ProbeEvent) : Bool :=
  match e.body with
  | .status status _ _ => nativeStatusEndsAssignment status
  | _ => false

/-- The instant of an event. -/
def instant (e : ProbeEvent) : ℤ := (IsoDate.dateParse e.ts).getD 0

/-- A valid status event of a probe's version from the instance of an envelope. -/
structure OfKey (source : NativeIngestEnvelope) (probeId : JsString) (version : ℕ) (e : ProbeEvent) :
    Prop where
  parsed : nativeProbeEventSchema e = some e
  probe : e.probeId = probeId
  version : e.probeVersion = some version
  status : ∃ status detail metadata, e.body = .status status detail metadata ∧
    namesInstance source e.body = true

end ProbeEvent

/-- A batch of events and the rest of its request. -/
structure Delivery where
  now : ℕ
  agentStatus : AgentStatus
  events : List ProbeEvent

/-- The envelope of a batch. -/
def Delivery.envelope (d : Delivery) (source : NativeIngestEnvelope) : NativeIngestEnvelope :=
  { source with agentStatus := d.agentStatus, events := d.events }

namespace BrokerState

variable {cfg : Config} {scope : ResourceScope} {source : NativeIngestEnvelope} {probeId : JsString}
  {version : ℕ} {s : BrokerState} {e : ProbeEvent}

/-- Whether the status recorded under a key ends the assignment. -/
def ended (s : BrokerState) (key : JsString) : Bool :=
  (s.nativeStatuses.get? key).any fun status => nativeStatusEndsAssignment status.status

/-- The batches of an instance are ingested one after another. -/
def deliver (cfg : Config) (scope : ResourceScope) (source : NativeIngestEnvelope)
    (deliveries : List Delivery) (s : BrokerState) : BrokerState :=
  deliveries.foldl (fun s d => (s.ingestNative cfg d.now (d.envelope source) scope).1) s

/-- The instance of an envelope is registered and its service has the probe. -/
structure Assigned (scope : ResourceScope) (source : NativeIngestEnvelope) (probeId : JsString)
    (version : ℕ) (s : BrokerState) : Prop where
  target : (s.nativeInstances.get? (nativeInstanceKey scope source.agentId source.instanceId)).any
    (isTarget source) = true
  stored : ∃ stored, s.probes.get? probeId = some stored ∧ stored.scope = scope ∧
    stored.probe.serviceId = source.serviceId ∧ stored.probe.version = version

/-- The key of a probe's status on the instance of an envelope. -/
def keyOf (scope : ResourceScope) (source : NativeIngestEnvelope) (probeId : JsString) (version : ℕ) :
    JsString :=
  nativeStatusKey scope probeId version source.agentId source.instanceId source.buildId

/-! ### One event -/

/-- The status of an event of a key. -/
theorem nativeStatusOf_ofKey (h : e.OfKey source probeId version) :
    ∃ status, nativeStatusOf e = some status ∧ status.updatedAt = e.ts ∧
      nativeStatusEndsAssignment status.status = e.endsAssignment := by
  obtain ⟨name, detail, metadata, hbody, -⟩ := h.status
  rw [nativeStatusOf, ProbeEvent.endsAssignment, hbody]
  exact ⟨_, rfl, rfl, rfl⟩

theorem isSome_dateParse (h : e.OfKey source probeId version) :
    IsoDate.dateParse e.ts = some e.instant := by
  obtain ⟨-, -, hts, -⟩ := nativeProbeEventSchema_self.mp h.parsed
  have hdate : IsoDate.isDatetime e.ts = true := refine_self.mp hts
  obtain ⟨t, ht⟩ := Option.isSome_iff_exists.mp hdate
  rw [ProbeEvent.instant, IsoDate.dateParse, ht]
  rfl

theorem dateLt_eq {e' : ProbeEvent} (h : e.OfKey source probeId version)
    (h' : e'.OfKey source probeId version) : dateLt e.ts e'.ts = decide (e.instant < e'.instant) := by
  rw [dateLt, isSome_dateParse h, isSome_dateParse h']

theorem statusKeyOf_ofKey (h : e.OfKey source probeId version) :
    statusKeyOf scope source e = keyOf scope source probeId version := by
  rw [statusKeyOf, h.probe, h.version]
  rfl

/-- The record under a key against the event a register holds. -/
structure Recorded (scope : ResourceScope) (source : NativeIngestEnvelope) (probeId : JsString)
    (version : ℕ) (s : BrokerState) (held : Option ProbeEvent) : Prop where
  record : s.nativeStatuses.get? (keyOf scope source probeId version) = held.bind nativeStatusOf
  valid : ∀ e, held = some e → e.OfKey source probeId version

theorem Recorded.congr {t : BrokerState} {held : Option ProbeEvent}
    (h : Recorded scope source probeId version s held) (ht : t.nativeStatuses = s.nativeStatuses) :
    Recorded scope source probeId version t held :=
  ⟨ht ▸ h.record, h.valid⟩

/-- **The record is a register with a timestamp guard and a latch.** -/
theorem Recorded.event {held : Option ProbeEvent} (h : Recorded scope source probeId version s held)
    (he : e.OfKey source probeId version) :
    Recorded scope source probeId version (s.ingestNativeEvent cfg scope source e)
      (Latch.step ProbeEvent.instant ProbeEvent.endsAssignment held e) := by
  obtain ⟨status, hstatus, hts, hends⟩ := nativeStatusOf_ofKey he
  have hguard : (s.nativeStatuses.get? (keyOf scope source probeId version)).any
      (keepsPrevious status) = held.any fun p => decide (e.instant < p.instant) ||
        (p.endsAssignment && !e.endsAssignment) := by
    rw [h.record]
    rcases held with - | p
    · rfl
    · obtain ⟨previous, hprevious, hpts, hpends⟩ := nativeStatusOf_ofKey (h.valid p rfl)
      rw [Option.bind_some, hprevious, Option.any_some, Option.any_some, keepsPrevious, hts, hpts,
        hends, hpends, dateLt_eq he (h.valid p rfl)]
  have hkey : statusKeyOf scope source e = keyOf scope source probeId version := statusKeyOf_ofKey he
  rw [← hkey] at hguard
  unfold Latch.step
  split
  · next hold =>
    rw [hold] at hguard
    refine h.congr ?_
    rw [ingestNativeEvent_of_kept hstatus hguard]
    rfl
  · next hnew =>
    rw [Bool.not_eq_true] at hnew
    rw [hnew] at hguard
    refine ⟨?_, fun p hp => Option.some.inj hp ▸ he⟩
    rw [ingestNativeEvent_of_new hstatus hguard, nativeStatuses_deriveNativeLogicalStatus, hkey,
      Option.bind_some, hstatus]
    exact JsMap.get?_set_self ..

/-! ### Batches -/

theorem Recorded.events {held : Option ProbeEvent} {l : List ProbeEvent}
    (h : Recorded scope source probeId version s held)
    (hl : ∀ e ∈ l, e.OfKey source probeId version) :
    Recorded scope source probeId version (l.foldl (ingestNativeEvent cfg scope source) s)
      (l.foldl (Latch.step ProbeEvent.instant ProbeEvent.endsAssignment) held) := by
  induction l generalizing s held with
  | nil => exact h
  | cons e l ih =>
    exact ih (h.event (hl e List.mem_cons_self)) fun e' he' => hl e' (List.mem_cons_of_mem _ he')

/-- An assigned probe has all its events accepted. -/
theorem Assigned.checked (h : Assigned scope source probeId version s)
    (he : e.OfKey source probeId version) :
    ∃ stored, s.probes.get? e.probeId = some stored ∧
      checkNativeEvent source scope stored e = .ok () := by
  obtain ⟨stored, hstored, hscope, hservice, hversion⟩ := h.stored
  obtain ⟨name, detail, metadata, hbody, hnames⟩ := he.status
  refine ⟨stored, he.probe ▸ hstored, ?_⟩
  have hmatches : matchesType e stored.probe = true := by
    unfold matchesType
    rw [hbody]
    rfl
  unfold checkNativeEvent
  rw [if_neg, if_neg, if_neg]
  · rw [hnames]
    exact Bool.false_ne_true
  · rw [he.version, hversion]
    exact not_not.mpr rfl
  · rw [hmatches]
    simp [hscope, hservice]

/-- A batch for an assigned probe leaves it assigned and is stored whole. -/
theorem Assigned.delivery (h : Assigned scope source probeId version s) (cfg : Config) {held : Option ProbeEvent}
    (hr : Recorded scope source probeId version s held) {d : Delivery}
    (hd : ∀ e ∈ d.events, e.OfKey source probeId version) :
    Assigned scope source probeId version (s.ingestNative cfg d.now (d.envelope source) scope).1 ∧
      Recorded scope source probeId version (s.ingestNative cfg d.now (d.envelope source) scope).1
        (d.events.foldl (Latch.step ProbeEvent.instant ProbeEvent.endsAssignment) held) := by
  obtain ⟨t, hbatch⟩ : ∃ t, s.nativeBatch d.now scope (d.envelope source) = some (t, d.events) :=
    nativeBatch_of_checked h.target fun e he => h.checked (hd e he)
  rcases ingestNative_batch cfg d.now scope (d.envelope source) s with
    ⟨hnone, -⟩ | ⟨t', accepted, hsome, heq⟩
  · rw [hbatch] at hnone
    cases hnone
  rw [hbatch] at hsome
  cases hsome
  obtain ⟨⟨removed, health, ht⟩, -, -⟩ := nativeBatch_eq_some hbatch
  have hstored : Recorded scope source probeId version
      (d.events.foldl (ingestNativeEvent cfg scope (d.envelope source)) t) _ :=
    (hr.congr (by rw [ht])).events hd
  obtain ⟨hprobes, hinstances⟩ := frame_ingestNativeEvents cfg scope (d.envelope source)
    d.events t
  have hassigned : Assigned scope source probeId version
      (d.events.foldl (ingestNativeEvent cfg scope (d.envelope source)) t) := by
    refine ⟨?_, ?_⟩
    · rw [hinstances, ht]
      exact h.target
    · rw [hprobes, ht]
      exact h.stored
  rw [heq]
  generalize d.events.foldl (ingestNativeEvent cfg scope (d.envelope source)) t = u at hstored hassigned
  rcases touchNativeService_eq d.now scope (d.envelope source) u with htouch | ⟨_, _, htouch⟩
  · rw [htouch]
    exact ⟨hassigned, hstored⟩
  · rw [htouch]
    exact ⟨⟨hassigned.target, hassigned.stored⟩, hstored.congr rfl⟩

theorem Recorded.deliver (h : Assigned scope source probeId version s) {held : Option ProbeEvent}
    (hr : Recorded scope source probeId version s held) {deliveries : List Delivery}
    (hd : ∀ e ∈ deliveries.flatMap (·.events), e.OfKey source probeId version) :
    Recorded scope source probeId version (s.deliver cfg scope source deliveries)
      ((deliveries.flatMap (·.events)).foldl
        (Latch.step ProbeEvent.instant ProbeEvent.endsAssignment) held) := by
  induction deliveries generalizing s held with
  | nil => exact hr
  | cons d deliveries ih =>
    rw [List.flatMap_cons] at hd ⊢
    rw [List.foldl_append]
    obtain ⟨hassigned, hrecorded⟩ := h.delivery cfg hr fun e he =>
      hd e (List.mem_append_left _ he)
    exact ih hassigned hrecorded fun e he => hd e (List.mem_append_right _ he)

theorem Recorded.ended_iff {held : Option ProbeEvent} (h : Recorded scope source probeId version s held) :
    s.ended (keyOf scope source probeId version) = true ↔
      Latch.Latched ProbeEvent.endsAssignment held := by
  rw [ended, h.record]
  rcases held with - | e
  · exact Iff.rfl
  · obtain ⟨status, hstatus, -, hends⟩ := nativeStatusOf_ofKey (h.valid e rfl)
    rw [Option.bind_some, hstatus, Option.any_some, hends]
    exact Iff.rfl

/-- **The batches make no difference.**  An assignment without a record has ended
when the events that arrived leave the register latched. -/
theorem ended_deliver (h : Assigned scope source probeId version s)
    (hnone : s.nativeStatuses.get? (keyOf scope source probeId version) = none)
    {deliveries : List Delivery}
    (hd : ∀ e ∈ deliveries.flatMap (·.events), e.OfKey source probeId version) :
    (s.deliver cfg scope source deliveries).ended (keyOf scope source probeId version) = true ↔
      Latch.Latched ProbeEvent.endsAssignment
        (Latch.run ProbeEvent.instant ProbeEvent.endsAssignment (deliveries.flatMap (·.events))) := by
  have hstart : Recorded scope source probeId version s none := ⟨hnone, fun _ h => by cases h⟩
  have hend : Recorded scope source probeId version (s.deliver cfg scope source deliveries) _ :=
    hstart.deliver h hd
  exact hend.ended_iff

/-- **The verdict of a set of events.**  It depends on their order only; it is
that of the events alone, in every order and with any batches, exactly when some
event that ends the assignment, if there is one, is not older than any event
that does not. -/
theorem verdict_of_arrivals (h : Assigned scope source probeId version s)
    (hnone : s.nativeStatuses.get? (keyOf scope source probeId version) = none)
    {events : List ProbeEvent} (hevents : ∀ e ∈ events, e.OfKey source probeId version) :
    (∀ deliveries : List Delivery, deliveries.flatMap (·.events) = events →
      ((s.deliver cfg scope source deliveries).ended (keyOf scope source probeId version) = true ↔
        ∃ pre e, pre ++ [e] <+: events ∧ e.endsAssignment = true ∧
          ∀ e' ∈ pre, dateLt e.ts e'.ts = false)) ∧
    ((∀ deliveries : List Delivery, (deliveries.flatMap (·.events)).Perm events →
      ((s.deliver cfg scope source deliveries).ended (keyOf scope source probeId version) = true ↔
        ∃ e ∈ events, e.endsAssignment = true)) ↔
      ((∃ e ∈ events, e.endsAssignment = true) → ∃ e ∈ events, e.endsAssignment = true ∧
        ∀ e' ∈ events, e'.endsAssignment = false → dateLt e.ts e'.ts = false)) := by
  have hdate : ∀ e ∈ events, ∀ e' ∈ events, (dateLt e.ts e'.ts = false ↔ e'.instant ≤ e.instant) := by
    intro e he e' he'
    rw [dateLt_eq (hevents e he) (hevents e' he'), decide_eq_false_iff_not, not_lt]
  constructor
  · rintro deliveries rfl
    rw [ended_deliver h hnone hevents, Latch.latched_run_iff]
    refine exists_congr fun pre => exists_congr fun e => and_congr_right fun hpre =>
      and_congr_right fun _ => forall₂_congr fun e' he' => ?_
    have hmem : ∀ e' ∈ pre ++ [e], e' ∈ _ := fun e' he' => hpre.subset he'
    exact (hdate e (hmem e (List.mem_append_right _ List.mem_cons_self)) e'
      (hmem e' (List.mem_append_left _ he'))).symm
  · -- every order is the order of some batches, of one batch for instance
    have hperm : (∀ deliveries : List Delivery, (deliveries.flatMap (·.events)).Perm events →
        ((s.deliver cfg scope source deliveries).ended (keyOf scope source probeId version) = true ↔
          ∃ e ∈ events, e.endsAssignment = true)) ↔
        ∀ l : List ProbeEvent, l.Perm events →
          (Latch.Latched ProbeEvent.endsAssignment
            (Latch.run ProbeEvent.instant ProbeEvent.endsAssignment l) ↔
              ∃ e ∈ events, e.endsAssignment = true) := by
      constructor
      · intro hall l hl
        have hone := hall [⟨0, source.agentStatus, l⟩] (by simpa using hl)
        rw [ended_deliver h hnone] at hone
        · simpa using hone
        · intro e he
          exact hevents e (hl.subset (by simpa using he))
      · intro hall deliveries hl
        rw [ended_deliver h hnone fun e he => hevents e (hl.subset he)]
        exact hall _ hl
    rw [hperm, Latch.latched_of_forall_perm]
    refine imp_congr_right fun _ => exists_congr fun e => and_congr_right fun he =>
      and_congr_right fun _ => forall₂_congr fun e' he' => imp_congr_right fun _ => ?_
    exact (hdate e he e' he').symm

end BrokerState

/-! ### A native agent of the service -/

namespace Sample

/-- An agent that can place counters. -/
def registration (agentId : JsString) : NativeAgentRegistration where
  agentId
  hostname := js "host"
  capabilities := [js "counter"]
  agentVersion := js "1.0.0"

/-- An instance of `api`, seen at the epoch. -/
def nativeInstance (instanceId buildId : JsString) : NativeInstance where
  instanceId
  serviceId := js "api"
  language := .rust
  pid := 1
  processStartTime := js "1"
  executablePath := js "/app"
  executableDevice := none
  executableInode := none
  buildId
  capabilities := none
  cgroup := none
  containerId := none
  lastSeen := js "1970-01-01T00:00:00.000Z"

def agent : JsString := js "agent"
def instanceA : JsString := js "a"
def build : JsString := js "0123abcd"

/-- A service with a counter and one native instance. -/
def hosted : Process :=
  Process.next config
    (Process.next config created (.request 0 scope (.registerNativeAgent (registration agent))))
    (.request 0 scope (.replaceNativeInstances agent [nativeInstance instanceA build] [js "*"]))

theorem hosted_reached : Reached (Process.next config) (fun _ e => Process.Valid e) {} hosted := by
  have hregister : Protocol.nativeAgentRegistrationSchema (registration agent) =
      some (registration agent) := by decide
  have hreplace : Protocol.agentIdSchema agent = some agent ∧
      Protocol.nativeInstanceSetSchema [nativeInstance instanceA build] =
        some [nativeInstance instanceA build] := by decide
  exact .step _ (.step _ created_reached hregister) hreplace

/-- The envelopes of the instance. -/
def source : NativeIngestEnvelope where
  agentId := agent
  serviceId := js "api"
  instanceId := instanceA
  buildId := build
  agentStatus := { state := .green }
  events := []

/-- The counter is assigned to the instance, and nothing is recorded yet. -/
theorem hosted_assigned : Assigned scope source (draw '1' 0) 1 hosted.state ∧
    hosted.state.nativeStatuses.get? (keyOf scope source (draw '1' 0) 1) = none := by
  have hfound : ((hosted.state.nativeInstances.get? (nativeInstanceKey scope agent instanceA)).any
      (isTarget source) && (hosted.state.probes.get? (draw '1' 0)).any (fun stored =>
        stored.scope = scope && stored.probe.serviceId = js "api" && stored.probe.version = 1) &&
          (hosted.state.nativeStatuses.get? (keyOf scope source (draw '1' 0) 1)).isNone) = true := by
    decide
  rw [Bool.and_eq_true, Bool.and_eq_true, Option.isNone_iff_eq_none] at hfound
  obtain ⟨⟨htarget, hprobe⟩, hnone⟩ := hfound
  obtain ⟨stored, hstored, hown⟩ := (Option.any_eq_true _ _).mp hprobe
  rw [Bool.and_eq_true, Bool.and_eq_true, decide_eq_true_eq, decide_eq_true_eq, decide_eq_true_eq]
    at hown
  exact ⟨⟨htarget, stored, hstored, hown.1.1, hown.1.2, hown.2⟩, hnone⟩

/-- A status the instance reports for the counter. -/
def siteStatus (status : ProbeStatusName) (ts : JsString) : ProbeEvent :=
  ⟨draw '1' 0, some 1, ts, .status status none
    { agentId := some agent, instanceId := some instanceA, buildId := some build }⟩

def siteEarly : JsString := js "1970-01-01T00:00:01.000Z"

def siteLate : JsString := js "1970-01-01T00:00:02.000Z"

theorem siteTs_parsed : Protocol.timestampSchema siteEarly = some siteEarly ∧
    Protocol.timestampSchema siteLate = some siteLate := by
  decide

theorem siteStatus_ofKey (status : ProbeStatusName) {ts : JsString}
    (hts : Protocol.timestampSchema ts = some ts) :
    (siteStatus status ts).OfKey source (draw '1' 0) 1 := by
  have hid : Protocol.probeIdSchema (draw '1' 0) = some (draw '1' 0) := by decide
  have hmetadata : Protocol.nativeStatusMetadataSchema
      { agentId := some agent, instanceId := some instanceA, buildId := some build } =
        some { agentId := some agent, instanceId := some instanceA, buildId := some build } := by
    decide
  refine ⟨Protocol.nativeProbeEventSchema_self.mpr ⟨hid, ⟨1, rfl, rfl⟩, hts,
    Protocol.eventBodySchema_status_self.mpr ⟨rfl, hmetadata⟩⟩, rfl, rfl, ?_⟩
  refine ⟨status, none, _, rfl, ?_⟩
  simp only [namesInstance, source, decide_true, Bool.and_self, siteStatus]

/-- A batch of one status. -/
def delivery (e : ProbeEvent) : Delivery := ⟨3000, { state := .green }, [e]⟩

/-- Where the status that ends the assignment is not the older one, both orders agree. -/
theorem siteStatuses_settled :
    (hosted.state.deliver config scope source [delivery (siteStatus .armed siteEarly),
        delivery (siteStatus .hitLimitReached siteLate)]).ended
          (keyOf scope source (draw '1' 0) 1) = true ∧
      (hosted.state.deliver config scope source [delivery (siteStatus .hitLimitReached siteLate),
        delivery (siteStatus .armed siteEarly)]).ended
          (keyOf scope source (draw '1' 0) 1) = true := by
  have hall : ∀ deliveries : List Delivery, (deliveries.flatMap (·.events)).Perm
      [siteStatus .armed siteEarly, siteStatus .hitLimitReached siteLate] →
        ((hosted.state.deliver config scope source deliveries).ended
            (keyOf scope source (draw '1' 0) 1) = true ↔
          ∃ e ∈ [siteStatus .armed siteEarly, siteStatus .hitLimitReached siteLate],
            e.endsAssignment = true) := by
    refine (verdict_of_arrivals hosted_assigned.1 hosted_assigned.2 ?_).2.mpr fun _ => ?_
    · intro e he
      rcases List.mem_pair.mp he with rfl | rfl
      · exact siteStatus_ofKey _ siteTs_parsed.1
      · exact siteStatus_ofKey _ siteTs_parsed.2
    · refine ⟨_, List.mem_cons_of_mem _ List.mem_cons_self, rfl, ?_⟩
      have hlt : dateLt siteLate siteEarly = false := by decide
      intro e' he' hquiet
      rcases List.mem_pair.mp he' with rfl | rfl
      · exact hlt
      · cases hquiet
  have hends : ∃ e ∈ [siteStatus .armed siteEarly, siteStatus .hitLimitReached siteLate],
      e.endsAssignment = true := ⟨_, List.mem_cons_of_mem _ List.mem_cons_self, rfl⟩
  constructor
  · refine (hall _ ?_).mpr hends
    exact List.Perm.refl [siteStatus .armed siteEarly, siteStatus .hitLimitReached siteLate]
  · refine (hall _ ?_).mpr hends
    exact List.Perm.swap (siteStatus .armed siteEarly) (siteStatus .hitLimitReached siteLate) []

/-- One site exceeds its limit, then another one is armed. -/
def exceeded : ProbeEvent := siteStatus .hitLimitReached siteEarly

def armedLater : ProbeEvent := siteStatus .armed siteLate

theorem exceeded_instant : exceeded.instant < armedLater.instant := by decide

/-- The verdict after both, as they arrive. -/
theorem ended_two {first second : ProbeEvent} (h : first.OfKey source (draw '1' 0) 1)
    (h' : second.OfKey source (draw '1' 0) 1) :
    (hosted.state.deliver config scope source [delivery first, delivery second]).ended
        (keyOf scope source (draw '1' 0) 1) = true ↔
      Latch.Latched ProbeEvent.endsAssignment (Latch.step ProbeEvent.instant ProbeEvent.endsAssignment
        (some first) second) := by
  refine ended_deliver hosted_assigned.1 hosted_assigned.2 fun e he => ?_
  have he : e ∈ [first, second] := he
  rcases List.mem_pair.mp he with rfl | rfl
  · exact h
  · exact h'

/-- A site that was armed after another one exceeded its limit: the order decides. -/
theorem siteStatuses_unsettled :
    ∃ p deliveries deliveries', Reached (Process.next config) (fun _ e => Process.Valid e) {} p ∧
      p.state.nativeStatuses.get? (keyOf scope source (draw '1' 0) 1) = none ∧
      (∀ e ∈ deliveries.flatMap Delivery.events, e.OfKey source (draw '1' 0) 1) ∧
      (deliveries.flatMap Delivery.events).Perm (deliveries'.flatMap Delivery.events) ∧
      (∃ e ∈ deliveries.flatMap Delivery.events, e.endsAssignment = true) ∧
      (p.state.deliver config scope source deliveries).ended (keyOf scope source (draw '1' 0) 1) = true ∧
      (p.state.deliver config scope source deliveries').ended (keyOf scope source (draw '1' 0) 1) =
        false := by
  have hexceeded : exceeded.OfKey source (draw '1' 0) 1 := siteStatus_ofKey _ siteTs_parsed.1
  have harmed : armedLater.OfKey source (draw '1' 0) 1 :=
    siteStatus_ofKey _ siteTs_parsed.2
  refine ⟨hosted, [delivery exceeded, delivery armedLater], [delivery armedLater, delivery exceeded],
    hosted_reached, hosted_assigned.2, ?_, List.Perm.swap armedLater exceeded [],
    ⟨exceeded, List.mem_cons_self, rfl⟩, ?_, ?_⟩
  · intro e he
    have he : e ∈ [exceeded, armedLater] := he
    rcases List.mem_pair.mp he with rfl | rfl
    · exact hexceeded
    · exact harmed
  · rw [ended_two hexceeded harmed]
    have hlatched : Latch.Latched ProbeEvent.endsAssignment (some exceeded) := rfl
    exact hlatched.step armedLater
  · rw [← Bool.not_eq_true, ended_two harmed hexceeded]
    have hquiet : ¬ Latch.Latched ProbeEvent.endsAssignment (some armedLater) := Bool.false_ne_true
    rw [Latch.step_of_not_latched hquiet, Option.any_some, if_pos (decide_eq_true exceeded_instant)]
    exact hquiet

end Sample
