/-
LiveProbe/CapabilityGate.lean

The capabilities of a service, over runs of heartbeats, polls, listings and
new probes.

The broker keeps the last report of every agent, drops the reports that have
grown old whenever it looks, and caches the intersection in the service record.
`GateRun` remembers beside the state every heartbeat that was accepted.  What is
left in the maps is, at any later clock value, the last heartbeat of each live
agent (`GateRun.gate`), so what is listed and what a new probe is tested
against is what all live agents last reported (`Gate.mem_listed`,
`Gate.mem_tested`).  A new probe is refused for an upgrade exactly when it needs
a capability that is not among these (`createProbe_asksUpgrade_iff`).
-/
import LiveProbe.Answers
import LiveProbe.Outcome

open JsString Schema Broker Protocol BrokerState

/-! ### Heartbeats -/

/-- An accepted report of an agent. -/
structure Heartbeat where
  time : ℕ
  scope : ResourceScope
  serviceId : JsString
  agent : JsString
  capabilities : List JsString

namespace Heartbeat

/-- The last of the heartbeats that an agent of a service sent. -/
def last (l : List Heartbeat) (scope : ResourceScope) (serviceId agent : JsString) : Option Heartbeat :=
  (l.filter fun h => h.scope = scope ∧ h.serviceId = serviceId ∧ h.agent = agent).getLast?

def Live (now : ℕ) (h : Heartbeat) : Prop := now ≤ h.time + activeAgentWindowMs

instance (now : ℕ) (h : Heartbeat) : Decidable (h.Live now) :=
  inferInstanceAs (Decidable (now ≤ h.time + activeAgentWindowMs))

/-- Some agent of the service is live, and all live agents last reported the capability. -/
def Supported (l : List Heartbeat) (now : ℕ) (scope : ResourceScope) (serviceId capability : JsString) :
    Prop :=
  (∃ agent h, last l scope serviceId agent = some h ∧ h.Live now) ∧
    ∀ agent h, last l scope serviceId agent = some h → h.Live now → capability ∈ h.capabilities

variable {l : List Heartbeat} {h : Heartbeat} {scope : ResourceScope} {serviceId agent : JsString}

theorem last_append :
    last (l ++ [h]) scope serviceId agent =
      if h.scope = scope ∧ h.serviceId = serviceId ∧ h.agent = agent then some h
      else last l scope serviceId agent := by
  unfold last
  rw [List.filter_append]
  split
  · rename_i hown
    rw [List.filter_cons_of_pos (by simpa using hown), List.filter_nil, List.getLast?_concat]
  · rename_i hown
    rw [List.filter_cons_of_neg (by simpa using hown), List.filter_nil, List.append_nil]

end Heartbeat

/-! ### Runs -/

/-- The heartbeat that an ingest leaves when it is accepted. -/
def Heartbeat.ofRequest (now : ℕ) (scope : ResourceScope) : Request → Response → List Heartbeat
  | .ingest input, .accepted (.ok _) =>
    [{ time := now, scope, serviceId := input.serviceId, agent := reportingAgent input
       capabilities := input.capabilities.getD [] }]
  | _, _ => []

def Request.gated : Request → Bool
  | .ingest _ | .pollProbes .. | .listServices | .createProbe .. => true
  | _ => false

/-- A state of a run, the clock of its last request and the heartbeats so far. -/
inductive GateRun (cfg : Config) : BrokerState → ℕ → List Heartbeat → Prop
  | start : GateRun cfg {} 0 []
  | request {s : BrokerState} {clock : ℕ} {l : List Heartbeat} (run : GateRun cfg s clock l) {now : ℕ}
      (hclock : clock ≤ now) (scope : ResourceScope) (r : Request) (gated : r.gated = true) :
      GateRun cfg (s.handle cfg now scope r).1 now
        (l ++ Heartbeat.ofRequest now scope r (s.handle cfg now scope r).2)

namespace BrokerState

variable {cfg : Config} {now clock : ℕ} {scope : ResourceScope} {s t : BrokerState} {l : List Heartbeat}

/-- The report that is kept of an agent. -/
def reportOf (s : BrokerState) (scope : ResourceScope) (serviceId agent : JsString) :
    Option AgentCapabilityReport :=
  (s.agentCapabilityReports.get? (serviceKey scope serviceId)).bind (·.get? agent)

/-- The maps against the heartbeats. -/
structure Gate (s : BrokerState) (clock : ℕ) (l : List Heartbeat) : Prop where
  keyed : ∀ k r, s.services.get? k = some r → k = serviceKey r.scope r.serviceId
  recorded : ∀ scope serviceId agent r, s.reportOf scope serviceId agent = some r →
    ∃ record, s.services.get? (serviceKey scope serviceId) = some record
  reported : ∀ scope serviceId agent r, s.reportOf scope serviceId agent = some r →
    ∃ h, Heartbeat.last l scope serviceId agent = some h ∧ h.time = r.lastSeen ∧
      ∀ c, c ∈ r.capabilities ↔ c ∈ h.capabilities
  kept : ∀ scope serviceId agent h, Heartbeat.last l scope serviceId agent = some h → h.Live clock →
    ∃ r, s.reportOf scope serviceId agent = some r

/-! ### The intersection -/

theorem mem_normalizeAgentCapabilities {capabilities : List JsString} {c : JsString} :
    c ∈ normalizeAgentCapabilities capabilities ↔ c ∈ capabilities := by
  simp only [normalizeAgentCapabilities, sortStrings, List.mem_append, List.mem_filter, List.mem_mergeSort,
    decide_eq_true_eq, List.mem_eraseDups]
  by_cases hknown : c ∈ knownAgentCapabilities
  · simp [hknown]
  · simp [hknown]

/-- What all the reports that are still live have in common, if there is one. -/
theorem mem_activeCapabilityIntersection {reports : JsMap JsString AgentCapabilityReport} {c : JsString} :
    c ∈ activeCapabilityIntersection now reports ↔
      (∃ agent r, reports.get? agent = some r ∧ now ≤ r.lastSeen + activeAgentWindowMs) ∧
        ∀ agent r, reports.get? agent = some r → now ≤ r.lastSeen + activeAgentWindowMs →
          c ∈ r.capabilities := by
  have hlive : ∀ r, r ∈ (activeReports now reports).values ↔
      ∃ agent, reports.get? agent = some r ∧ now ≤ r.lastSeen + activeAgentWindowMs := by
    intro r
    rw [JsMap.mem_values_iff]
    refine exists_congr fun agent => ?_
    rw [← JsMap.get?_eq_some_iff, activeReports, JsMap.get?_filter, Option.filter_eq_some_iff,
      decide_eq_true_eq]
  unfold activeCapabilityIntersection
  cases hvalues : (activeReports now reports).values with
  | nil =>
    rw [hvalues] at hlive
    refine ⟨fun h => (List.not_mem_nil h).elim, ?_⟩
    rintro ⟨⟨agent, r, hr⟩, -⟩
    exact (List.not_mem_nil ((hlive r).2 ⟨agent, hr⟩)).elim
  | cons first rest =>
    rw [hvalues] at hlive
    rw [List.mem_filter, List.all_eq_true]
    simp only [decide_eq_true_eq]
    constructor
    · rintro ⟨-, hall⟩
      obtain ⟨agent, hfirst⟩ := (hlive first).1 List.mem_cons_self
      exact ⟨⟨agent, first, hfirst⟩, fun agent r hr hnow => hall r ((hlive r).2 ⟨agent, hr, hnow⟩)⟩
    · rintro ⟨-, hall⟩
      have hmem : ∀ r ∈ first :: rest, c ∈ r.capabilities := by
        intro r hr
        obtain ⟨agent, hget, hnow⟩ := (hlive r).1 hr
        exact hall agent r hget hnow
      exact ⟨hmem first List.mem_cons_self, hmem⟩

/-- The capabilities of a service are those its live agents support. -/
theorem Gate.mem_capabilitiesAt (h : Gate s clock l) (hclock : clock ≤ now) (serviceId c : JsString) :
    c ∈ s.capabilitiesAt now (serviceKey scope serviceId) ↔ Heartbeat.Supported l now scope serviceId c := by
  have hget : ∀ agent, ((s.agentCapabilityReports.get? (serviceKey scope serviceId)).getD ∅).get? agent =
      s.reportOf scope serviceId agent := by
    intro agent
    unfold reportOf
    cases s.agentCapabilityReports.get? (serviceKey scope serviceId) with
    | none => exact JsMap.get?_empty agent
    | some reports => rfl
  have hkept : ∀ agent hb, Heartbeat.last l scope serviceId agent = some hb → hb.Live now →
      ∃ r, s.reportOf scope serviceId agent = some r ∧ hb.time = r.lastSeen ∧
        ∀ c, c ∈ r.capabilities ↔ c ∈ hb.capabilities := by
    intro agent hb hlast hlive
    obtain ⟨r, hr⟩ := h.kept _ _ _ hb hlast (hclock.trans hlive)
    obtain ⟨hb', hlast', htime, hsame⟩ := h.reported _ _ _ _ hr
    obtain rfl : hb = hb' := Option.some.inj (hlast.symm.trans hlast')
    exact ⟨r, hr, htime, hsame⟩
  unfold capabilitiesAt
  rw [mem_activeCapabilityIntersection]
  simp only [hget]
  constructor
  · rintro ⟨⟨agent, r, hr, hnow⟩, hall⟩
    obtain ⟨hb, hlast, htime, -⟩ := h.reported _ _ _ _ hr
    refine ⟨⟨agent, hb, hlast, by rw [Heartbeat.Live, htime]; exact hnow⟩, fun agent' hb' hlast' hlive' => ?_⟩
    obtain ⟨r', hr', htime', hsame'⟩ := hkept agent' hb' hlast' hlive'
    exact (hsame' c).1 (hall agent' r' hr' (htime' ▸ hlive'))
  · rintro ⟨⟨agent, hb, hlast, hlive⟩, hall⟩
    obtain ⟨r, hr, htime, -⟩ := hkept agent hb hlast hlive
    refine ⟨⟨agent, r, hr, htime ▸ hlive⟩, fun agent' r' hr' hnow' => ?_⟩
    obtain ⟨hb', hlast', htime', hsame'⟩ := h.reported _ _ _ _ hr'
    exact (hsame' c).2 (hall agent' hb' hlast' (by rw [Heartbeat.Live, htime']; exact hnow'))

/-! ### What the steps keep -/

theorem Gate.init : Gate {} 0 [] where
  keyed := fun k r h => by cases h
  recorded := fun _ _ _ _ h => by cases h
  reported := fun _ _ _ _ h => by cases h
  kept := fun _ _ _ _ h => by cases h

/-- Time passes. -/
theorem Gate.later (h : Gate s clock l) (hclock : clock ≤ now) : Gate s now l :=
  { h with kept := fun scope serviceId agent hb hlast hlive =>
      h.kept scope serviceId agent hb hlast (hclock.trans hlive) }

theorem reportOf_congr (hreports : t.agentCapabilityReports = s.agentCapabilityReports)
    (scope : ResourceScope) (serviceId agent : JsString) :
    t.reportOf scope serviceId agent = s.reportOf scope serviceId agent := by
  rw [reportOf, hreports, reportOf]

/-- Only the service records and the reports matter. -/
theorem Gate.congr (h : Gate s clock l) (hservices : t.services = s.services)
    (hreports : t.agentCapabilityReports = s.agentCapabilityReports) : Gate t clock l := by
  have hof := reportOf_congr hreports
  exact {
    keyed := by rw [hservices]; exact h.keyed
    recorded := by
      intro scope serviceId agent r hr
      rw [hservices]
      exact h.recorded scope serviceId agent r (hof _ _ _ ▸ hr)
    reported := fun scope serviceId agent r hr => h.reported scope serviceId agent r (hof _ _ _ ▸ hr)
    kept := by
      intro scope serviceId agent hb hlast hlive
      rw [hof]
      exact h.kept scope serviceId agent hb hlast hlive }

/-- A record of a service is written under its key. -/
theorem Gate.setService (h : Gate s clock l) {serviceId : JsString} {record : ServiceRecord}
    (hrecord : record.scope = scope ∧ record.serviceId = serviceId)
    (hservices : t.services = s.services.set (serviceKey scope serviceId) record)
    (hreports : t.agentCapabilityReports = s.agentCapabilityReports) : Gate t clock l := by
  have hlookup : ∀ k, t.services.get? k =
      if k = serviceKey scope serviceId then some record else s.services.get? k := by
    intro k
    rw [hservices, JsMap.get?_set]
  have hof := reportOf_congr hreports
  exact {
    keyed := by
      intro k r hk
      rw [hlookup] at hk
      split at hk
      · rename_i hkey
        cases hk
        rw [hkey, hrecord.1, hrecord.2]
      · exact h.keyed k r hk
    recorded := by
      intro scope' serviceId' agent r hr
      rw [hlookup]
      split
      · exact ⟨_, rfl⟩
      · exact h.recorded scope' serviceId' agent r (hof _ _ _ ▸ hr)
    reported := fun scope serviceId agent r hr => h.reported scope serviceId agent r (hof _ _ _ ▸ hr)
    kept := by
      intro scope serviceId agent hb hlast hlive
      rw [hof]
      exact h.kept scope serviceId agent hb hlast hlive }

/-- Old reports are dropped. -/
theorem Gate.prune (h : Gate s now l) {serviceId : JsString} {old : JsMap JsString AgentCapabilityReport}
    (hold : s.agentCapabilityReports.get? (serviceKey scope serviceId) = some old)
    (hservices : t.services = s.services)
    (hreports : t.agentCapabilityReports =
      s.agentCapabilityReports.set (serviceKey scope serviceId) (activeReports now old)) : Gate t now l := by
  have hof : ∀ scope' serviceId' agent r, t.reportOf scope' serviceId' agent = some r ↔
      s.reportOf scope' serviceId' agent = some r ∧
        (serviceKey scope' serviceId' = serviceKey scope serviceId → now ≤ r.lastSeen + activeAgentWindowMs) := by
    intro scope' serviceId' agent r
    unfold reportOf
    rw [hreports, JsMap.get?_set]
    split
    · rename_i hkey
      rw [hkey, hold, Option.bind_some, Option.bind_some, activeReports, JsMap.get?_filter,
        Option.filter_eq_some_iff, decide_eq_true_eq]
      simp
    · rename_i hkey
      exact ⟨fun hr => ⟨hr, fun heq => absurd heq hkey⟩, fun hr => hr.1⟩
  exact {
    keyed := by rw [hservices]; exact h.keyed
    recorded := by
      intro scope' serviceId' agent r hr
      rw [hservices]
      exact h.recorded scope' serviceId' agent r ((hof _ _ _ _).1 hr).1
    reported := fun scope' serviceId' agent r hr => h.reported scope' serviceId' agent r ((hof _ _ _ _).1 hr).1
    kept := by
      intro scope' serviceId' agent hb hlast hlive
      obtain ⟨r, hr⟩ := h.kept scope' serviceId' agent hb hlast hlive
      obtain ⟨hb', hlast', htime, -⟩ := h.reported _ _ _ _ hr
      obtain rfl : hb = hb' := Option.some.inj (hlast.symm.trans hlast')
      exact ⟨r, (hof _ _ _ _).2 ⟨hr, fun _ => htime ▸ hlive⟩⟩ }

theorem Gate.refresh (h : Gate s now l) (scope : ResourceScope) (serviceId : JsString) :
    Gate (s.refreshServiceCapabilities now scope serviceId) now l := by
  rcases refreshServiceCapabilities_eq now scope serviceId s with heq | ⟨service, reports, hservice, hr, heq⟩ <;>
    rw [heq]
  · exact h
  · obtain ⟨hscope, hid⟩ := serviceKey_inj.1 (h.keyed _ _ hservice)
    -- The record is written first, then the reports are pruned.
    obtain ⟨record, hrecord⟩ : ∃ record, record =
      { service with capabilities := some (s.activeCapabilities now scope serviceId) } := ⟨_, rfl⟩
    rw [← hrecord]
    have hwritten : Gate { s with services := s.services.set (serviceKey scope serviceId) record } now l :=
      h.setService ⟨by rw [hrecord, hscope], by rw [hrecord, hid]⟩ rfl rfl
    rcases hr with rfl | ⟨old, hold, rfl⟩
    · exact hwritten
    · exact hwritten.prune hold rfl rfl

theorem Gate.touch (h : Gate s clock l) (now : ℕ) (serviceId : JsString) (sdk : Option AgentSdk)
    (agentStatus : Option AgentStatus) (commitSha : Option JsString) (commitSource : Option CommitSource)
    (capabilities : Option (List JsString)) :
    Gate (s.touchService now serviceId sdk agentStatus commitSha commitSource scope capabilities) clock l := by
  refine h.setService ?_ rfl rfl
  exact ⟨rfl, rfl⟩

/-- A report is filed, old ones are dropped, and the record is written. -/
theorem Gate.report (h : Gate s now l) {serviceId agent : JsString} {capabilities : List JsString}
    {record : ServiceRecord} (hrecord : record.scope = scope ∧ record.serviceId = serviceId)
    (hservices : t.services = s.services.set (serviceKey scope serviceId) record)
    (hreports : t.agentCapabilityReports = s.agentCapabilityReports.set (serviceKey scope serviceId)
      (activeReports now (((s.agentCapabilityReports.get? (serviceKey scope serviceId)).getD ∅).set agent
        ⟨now, normalizeAgentCapabilities capabilities⟩))) :
    Gate t now (l ++ [⟨now, scope, serviceId, agent, capabilities⟩]) := by
  have hof : ∀ scope' serviceId' agent' r, t.reportOf scope' serviceId' agent' = some r ↔
      if serviceKey scope' serviceId' = serviceKey scope serviceId then
        (if agent' = agent then r = ⟨now, normalizeAgentCapabilities capabilities⟩
          else s.reportOf scope' serviceId' agent' = some r ∧ now ≤ r.lastSeen + activeAgentWindowMs)
      else s.reportOf scope' serviceId' agent' = some r := by
    intro scope' serviceId' agent' r
    unfold reportOf
    rw [hreports, JsMap.get?_set]
    split
    · rename_i hkey
      rw [hkey, Option.bind_some, activeReports, JsMap.get?_filter, Option.filter_eq_some_iff, decide_eq_true_eq,
        JsMap.get?_set]
      split
      · constructor
        · rintro ⟨hr, -⟩
          exact (Option.some.inj hr).symm
        · rintro rfl
          exact ⟨rfl, Nat.le_add_right _ _⟩
      · cases s.agentCapabilityReports.get? (serviceKey scope serviceId) <;> rfl
    · rfl
  have hlast : ∀ scope' serviceId' agent',
      Heartbeat.last (l ++ [⟨now, scope, serviceId, agent, capabilities⟩]) scope' serviceId' agent' =
        if serviceKey scope' serviceId' = serviceKey scope serviceId ∧ agent' = agent then
          some ⟨now, scope, serviceId, agent, capabilities⟩
        else Heartbeat.last l scope' serviceId' agent' := by
    intro scope' serviceId' agent'
    rw [Heartbeat.last_append]
    refine if_congr ?_ rfl rfl
    rw [serviceKey_inj, and_assoc, eq_comm, @eq_comm _ serviceId, @eq_comm _ agent]
  exact {
    keyed := (h.setService hrecord (t := { s with services := t.services }) hservices rfl).keyed
    recorded := by
      intro scope' serviceId' agent' r hr
      rw [hservices, JsMap.get?_set]
      split
      · exact ⟨_, rfl⟩
      · rename_i hkey
        have hr := (hof _ _ _ _).1 hr
        rw [if_neg hkey] at hr
        exact h.recorded _ _ _ r hr
    reported := by
      intro scope' serviceId' agent' r hr
      have hr := (hof _ _ _ _).1 hr
      rw [hlast]
      split at hr
      · rename_i hkey
        split at hr
        · rename_i hagent
          rw [if_pos ⟨hkey, hagent⟩, hr]
          exact ⟨_, rfl, rfl, fun c => mem_normalizeAgentCapabilities⟩
        · rename_i hagent
          rw [if_neg fun hand => hagent hand.2]
          exact h.reported _ _ _ r hr.1
      · rename_i hkey
        rw [if_neg fun hand => hkey hand.1]
        exact h.reported _ _ _ r hr
    kept := by
      intro scope' serviceId' agent' hb hb' hlive
      rw [hlast] at hb'
      by_cases hkey : serviceKey scope' serviceId' = serviceKey scope serviceId
      · by_cases hagent : agent' = agent
        · exact ⟨_, (hof _ _ _ _).2 (by rw [if_pos hkey, if_pos hagent])⟩
        · rw [if_neg fun hand => hagent hand.2] at hb'
          obtain ⟨r, hr⟩ := h.kept _ _ _ hb hb' hlive
          obtain ⟨hb'', hlast'', htime, -⟩ := h.reported _ _ _ _ hr
          obtain rfl : hb = hb'' := Option.some.inj (hb'.symm.trans hlast'')
          exact ⟨r, (hof _ _ _ _).2 (by rw [if_pos hkey, if_neg hagent]; exact ⟨hr, htime ▸ hlive⟩)⟩
      · rw [if_neg fun hand => hkey hand.1] at hb'
        obtain ⟨r, hr⟩ := h.kept _ _ _ hb hb' hlive
        exact ⟨r, (hof _ _ _ _).2 (by rw [if_neg hkey]; exact hr)⟩ }

theorem Gate.expireDueProbes (cfg : Config) (now : ℕ) (h : Gate s clock l) : Gate (s.expireDueProbes cfg now) clock l := by
  obtain ⟨_, _, _, _, _, heq⟩ := frame_expireDueProbes cfg now s
  rw [heq]
  exact h.congr rfl rfl

theorem Gate.ingestEvents (h : Gate s clock l) (events : List ProbeEvent) :
    Gate (events.foldl (ingestEvent cfg) s) clock l := by
  induction events generalizing s with
  | nil => exact h
  | cons e events ih =>
    refine ih ?_
    unfold ingestEvent
    dsimp only
    split <;> exact h.congr rfl rfl

theorem Gate.ingest (h : Gate s now l) (input : IngestInput) :
    Gate (s.ingest cfg now input scope).1 now
      (l ++ Heartbeat.ofRequest now scope (.ingest input) (.accepted (s.ingest cfg now input scope).2)) := by
  unfold BrokerState.ingest
  dsimp only
  have hexpired := h.expireDueProbes cfg now
  split
  · rw [show Heartbeat.ofRequest now scope (.ingest input) (.accepted (.error _)) = [] from rfl, List.append_nil]
    exact hexpired
  · refine Gate.ingestEvents ?_ _
    refine hexpired.report ?_ rfl rfl
    exact ⟨rfl, rfl⟩

theorem Gate.createProbe (h : Gate s now l) (draws : ℕ → JsString) (input : CreateProbeInput) :
    Gate (s.createProbe cfg now draws input scope).1 now l := by
  unfold BrokerState.createProbe
  split
  · exact h
  · have hrefreshed := h.refresh scope input.serviceId
    dsimp only
    split
    · exact hrefreshed
    · split
      · exact hrefreshed
      · split
        · split
          · exact hrefreshed.congr rfl rfl
          · exact hrefreshed.congr rfl rfl
        · exact hrefreshed

theorem Gate.listServices (cfg : Config) (h : Gate s now l) : Gate (s.listServices cfg now scope).1 now l := by
  unfold BrokerState.listServices
  dsimp only
  generalize s.scopeServices scope = services
  induction services generalizing s with
  | nil => exact h
  | cons record services ih => exact ih (h.refresh _ record.serviceId)

/-- One request. -/
theorem Gate.handle (h : Gate s clock l) (hclock : clock ≤ now) {r : Request} (gated : r.gated = true) :
    Gate (s.handle cfg now scope r).1 now
      (l ++ Heartbeat.ofRequest now scope r (s.handle cfg now scope r).2) := by
  have h := h.later hclock
  cases r with
  | ingest input => exact h.ingest input
  | pollProbes serviceId since commitSha =>
    rw [show Heartbeat.ofRequest now scope (.pollProbes serviceId since commitSha) _ = [] from rfl, List.append_nil]
    exact (h.expireDueProbes cfg now).touch now serviceId none none none none none
  | listServices =>
    rw [show Heartbeat.ofRequest now scope .listServices _ = [] from rfl, List.append_nil]
    exact h.listServices cfg
  | createProbe draws input =>
    rw [show Heartbeat.ofRequest now scope (.createProbe draws input) _ = [] from rfl, List.append_nil]
    exact h.createProbe draws input
  | _ => cases gated

/-! ### The gate -/

/-- The capabilities that `createProbe` tests a request against. -/
def testedCapabilities (now : ℕ) (scope : ResourceScope) (serviceId : JsString) (s : BrokerState) :
    List JsString :=
  (((s.refreshServiceCapabilities now scope serviceId).services.get? (serviceKey scope serviceId)).bind
    (·.capabilities)).getD []

theorem Gate.mem_tested (h : Gate s clock l) (hclock : clock ≤ now) (serviceId c : JsString) :
    c ∈ s.testedCapabilities now scope serviceId ↔ Heartbeat.Supported l now scope serviceId c := by
  unfold testedCapabilities
  rw [services_refresh, JsMap.get?_mapVals, ← h.mem_capabilitiesAt hclock]
  cases hservice : s.services.get? (serviceKey scope serviceId) with
  | some record =>
    rw [Option.map_some, if_pos rfl]
    rfl
  | none =>
    -- Without a record nothing has been reported.
    refine ⟨fun hin => (List.not_mem_nil hin).elim, fun hin => ?_⟩
    obtain ⟨⟨agent, hb, hlast, hlive⟩, -⟩ := (h.mem_capabilitiesAt hclock serviceId c).1 hin
    obtain ⟨r, hr⟩ := h.kept _ _ _ hb hlast (hclock.trans hlive)
    obtain ⟨record, hrecord⟩ := h.recorded _ _ _ r hr
    rw [hservice] at hrecord
    cases hrecord

end BrokerState

namespace Broker

/-- The capabilities that a request needs. -/
def neededCapabilities (input : CreateProbeInput) (c : CompiledInput) : List JsString :=
  (match input.body with
    | .log _ logLevel => if logLevel ≠ .info then [js "log-levels-v1"] else []
    | _ => []) ++
  (if requiresExpressionCapability c then [js "expression-ast-v1"] else []) ++
  match input.body with
    | .snapshot _ _ includeStackLocals _ => if includeStackLocals then [js "frame-locals-v1"] else []
    | _ => []

/-- A log probe with a level of its own. -/
def needsLogLevels (input : CreateProbeInput) : Bool :=
  match input.body with
  | .log _ logLevel => logLevel ≠ .info
  | _ => false

/-- A snapshot with the locals of the frames. -/
def needsFrameLocals (input : CreateProbeInput) : Bool :=
  match input.body with
  | .snapshot _ _ includeStackLocals _ => includeStackLocals
  | _ => false

/-- The refusal that asks for a newer agent. -/
def AsksUpgrade (e : BrokerError) : Prop := ∃ message, e = .http 409 (js "agent_upgrade_required") message

section

variable {service : Option ServiceRecord} {input : CreateProbeInput} {c : CompiledInput}

theorem mem_neededCapabilities {capability : JsString} :
    capability ∈ neededCapabilities input c ↔
      needsLogLevels input = true ∧ capability = js "log-levels-v1" ∨
        requiresExpressionCapability c = true ∧ capability = js "expression-ast-v1" ∨
        needsFrameLocals input = true ∧ capability = js "frame-locals-v1" := by
  unfold neededCapabilities needsLogLevels needsFrameLocals
  cases input.body <;> simp

/-- One check passes, or asks for an upgrade because a needed capability is missing. -/
theorem checkCapability_cases (service : Option ServiceRecord) (serviceId capability : JsString) (needed : Bool) :
    checkCapability service serviceId capability needed = .ok () ∧
        (needed = true → capability ∈ (service.bind (·.capabilities)).getD []) ∨
      ∃ e, checkCapability service serviceId capability needed = .error e ∧ AsksUpgrade e ∧
        needed = true ∧ capability ∉ (service.bind (·.capabilities)).getD [] := by
  unfold checkCapability
  split
  · rename_i hmissing
    exact .inr ⟨_, rfl, ⟨_, rfl⟩, hmissing⟩
  · rename_i hnot
    exact .inl ⟨rfl, fun hneeded => by_contra fun hmissing => hnot ⟨hneeded, hmissing⟩⟩

/-- A request that the backend takes passes when the service reports what it
needs, and asks for an upgrade otherwise. -/
theorem checkService_cases
    (hnative : service.bind (·.backend) = some .nativeEbpf → checkNativeBackend input = .ok ()) :
    checkService service input c = .ok () ∧
        (∀ capability ∈ neededCapabilities input c, capability ∈ (service.bind (·.capabilities)).getD []) ∨
      ∃ e, checkService service input c = .error e ∧ AsksUpgrade e ∧
        ∃ capability ∈ neededCapabilities input c, capability ∉ (service.bind (·.capabilities)).getD [] := by
  have hchecks : checkService service input c = (do
      checkCapability service input.serviceId (js "log-levels-v1") (needsLogLevels input)
      checkCapability service input.serviceId (js "expression-ast-v1") (requiresExpressionCapability c)
      checkCapability service input.serviceId (js "frame-locals-v1") (needsFrameLocals input)) := by
    unfold checkService
    dsimp only
    split
    · rename_i hbackend
      rw [hnative hbackend]
      rfl
    · rfl
  rw [hchecks]
  -- The first of the three checks that fails gives the answer.
  rcases checkCapability_cases service input.serviceId (js "log-levels-v1") (needsLogLevels input) with
    ⟨hlevels, hlevelsIn⟩ | ⟨e, he, hasks, hneeded, hmissing⟩
  swap
  · exact .inr ⟨e, by rw [he]; rfl, hasks, _, mem_neededCapabilities.2 (.inl ⟨hneeded, rfl⟩), hmissing⟩
  rcases checkCapability_cases service input.serviceId (js "expression-ast-v1") (requiresExpressionCapability c) with
    ⟨hexpression, hexpressionIn⟩ | ⟨e, he, hasks, hneeded, hmissing⟩
  swap
  · exact .inr ⟨e, by rw [hlevels, he]; rfl, hasks, _, mem_neededCapabilities.2 (.inr (.inl ⟨hneeded, rfl⟩)), hmissing⟩
  rcases checkCapability_cases service input.serviceId (js "frame-locals-v1") (needsFrameLocals input) with
    ⟨hlocals, hlocalsIn⟩ | ⟨e, he, hasks, hneeded, hmissing⟩
  swap
  · exact .inr ⟨e, by rw [hlevels, hexpression, he]; rfl, hasks, _,
      mem_neededCapabilities.2 (.inr (.inr ⟨hneeded, rfl⟩)), hmissing⟩
  refine .inl ⟨by rw [hlevels, hexpression, hlocals]; rfl, fun capability hin => ?_⟩
  obtain ⟨hneeded, rfl⟩ | ⟨hneeded, rfl⟩ | ⟨hneeded, rfl⟩ := mem_neededCapabilities.1 hin
  · exact hlevelsIn hneeded
  · exact hexpressionIn hneeded
  · exact hlocalsIn hneeded

theorem checkService_eq_ok (h : checkService service input c = .ok ()) :
    ∀ capability ∈ neededCapabilities input c, capability ∈ (service.bind (·.capabilities)).getD [] := by
  refine (checkService_cases fun hbackend => ?_).elim (·.2) fun ⟨e, he, _⟩ => ?_
  · -- What is checked of a native service comes first.
    unfold checkService at h
    rw [if_pos hbackend] at h
    obtain ⟨_, hnative, -⟩ := Outcome.bind_eq_ok.1 h
    exact hnative
  · rw [h] at he
    cases he

end

end Broker

namespace BrokerState

variable {cfg : Config} {now clock : ℕ} {scope : ResourceScope} {s : BrokerState} {l : List Heartbeat}

theorem GateRun.gate (run : GateRun cfg s clock l) : Gate s clock l := by
  induction run with
  | start => exact .init
  | request _ hclock scope r gated ih => exact ih.handle hclock gated

/-- What a listing shows of a service. -/
theorem Gate.mem_listed (h : Gate s clock l) (hclock : clock ≤ now) {record : ServiceRecord}
    (hrecord : record ∈ (s.listServices cfg now scope).2) (c : JsString) :
    c ∈ record.capabilities.getD [] ↔ Heartbeat.Supported l now scope record.serviceId c := by
  rw [listServices_answer cfg now scope h.keyed, List.mem_mergeSort] at hrecord
  obtain ⟨⟨k, r⟩, hin, rfl⟩ := List.mem_map.1 hrecord
  obtain ⟨hin, hscope⟩ := List.mem_filter.1 hin
  have hkey := h.keyed k r (JsMap.get?_eq_some_iff.2 hin)
  rw [of_decide_eq_true hscope] at hkey
  show c ∈ s.capabilitiesAt now k ↔ _
  rw [hkey]
  exact h.mem_capabilitiesAt hclock r.serviceId c

/-- A probe is accepted only when its service supports what it needs. -/
theorem Gate.createProbe_supported (h : Gate s clock l) (hclock : clock ≤ now) {draws : ℕ → JsString}
    {input : CreateProbeInput} {compiled : CompiledInput} {probe : ProbeDefinition}
    (hcompiled : compileProbeInput cfg.jsep input = .ok compiled)
    (hcreated : (s.createProbe cfg now draws input scope).2 = .ok probe) :
    ∀ c ∈ neededCapabilities input compiled, Heartbeat.Supported l now scope input.serviceId c := by
  unfold BrokerState.createProbe at hcreated
  rw [hcompiled] at hcreated
  dsimp only at hcreated
  split at hcreated
  · cases hcreated
  · rename_i hchecked
    intro c hc
    exact (h.mem_tested hclock input.serviceId c).1 (checkService_eq_ok hchecked c hc)

/-- **A new probe is refused for an upgrade exactly when it needs a capability
that is not among the tested ones**, where the native backend has nothing
against it. -/
theorem createProbe_asksUpgrade_iff {draws : ℕ → JsString} {input : CreateProbeInput} {compiled : CompiledInput}
    (hcompiled : compileProbeInput cfg.jsep input = .ok compiled)
    (hnative : (s.services.get? (serviceKey scope input.serviceId)).bind (·.backend) = some .nativeEbpf →
      checkNativeBackend input = .ok ()) :
    (∃ e, (s.createProbe cfg now draws input scope).2 = .error e ∧ AsksUpgrade e) ↔
      ∃ c ∈ neededCapabilities input compiled, c ∉ s.testedCapabilities now scope input.serviceId := by
  have hbackend : ((s.refreshServiceCapabilities now scope input.serviceId).services.get?
      (serviceKey scope input.serviceId)).bind (·.backend) =
        (s.services.get? (serviceKey scope input.serviceId)).bind (·.backend) := by
    rw [services_refresh, JsMap.get?_mapVals]
    rcases s.services.get? (serviceKey scope input.serviceId) with - | record
    · rfl
    · rw [Option.map_some, if_pos rfl]
      rfl
  unfold BrokerState.createProbe
  rw [hcompiled]
  dsimp only
  rcases checkService_cases (c := compiled) (fun h => hnative (hbackend ▸ h)) with ⟨hok, hin⟩ | ⟨e, he, hasks, hmissing⟩
  · rw [hok]
    refine iff_of_false ?_ fun ⟨c, hneeded, hnot⟩ => hnot (hin c hneeded)
    rintro ⟨e, he, message, rfl⟩
    dsimp only at he
    split at he
    · cases he
    · split at he
      · split at he <;> cases he
      · cases he
  · rw [he]
    exact iff_of_true ⟨e, rfl, hasks⟩ hmissing

/-- In every run, the capabilities that are listed for a service and those that
a new probe is tested against are the ones that every live agent last reported,
and none when no agent is live. -/
theorem capabilities_exact (run : GateRun cfg s clock l) (hclock : clock ≤ now) (scope : ResourceScope) :
    (∀ record ∈ (s.listServices cfg now scope).2, ∀ c,
      c ∈ record.capabilities.getD [] ↔ Heartbeat.Supported l now scope record.serviceId c) ∧
    (∀ serviceId c, c ∈ s.testedCapabilities now scope serviceId ↔
      Heartbeat.Supported l now scope serviceId c) ∧
    (∀ draws input compiled probe, compileProbeInput cfg.jsep input = .ok compiled →
      (s.createProbe cfg now draws input scope).2 = .ok probe →
      ∀ c ∈ neededCapabilities input compiled, Heartbeat.Supported l now scope input.serviceId c) :=
  ⟨fun _ hrecord c => run.gate.mem_listed hclock hrecord c,
    fun serviceId c => run.gate.mem_tested hclock serviceId c,
    fun _ _ _ _ hcompiled hcreated => run.gate.createProbe_supported hclock hcompiled hcreated⟩

/-! ### Two agents of one service -/

/-- A heartbeat of an agent of the service `api`. -/
def beat (agent : JsString) (capabilities : List JsString) : Request :=
  .ingest {
    serviceId := js "api"
    sdk := .node
    agentId := some agent
    commitSha := js "0123456789abcdef0123456789abcdef01234567"
    commitSource := none
    capabilities := some capabilities
    agentStatus := { state := .green }
    events := [] }

/-- Both agents report, one of them knows less. -/
def beaten : BrokerState :=
  ((({} : BrokerState).handle Sample.config 0 Sample.scope
    (beat (js "a") [js "log-levels-v1", js "frame-locals-v1"])).1.handle Sample.config 10 Sample.scope
      (beat (js "b") [js "log-levels-v1"])).1

def beats : List Heartbeat :=
  [⟨0, Sample.scope, js "api", js "a", [js "log-levels-v1", js "frame-locals-v1"]⟩,
    ⟨10, Sample.scope, js "api", js "b", [js "log-levels-v1"]⟩]

theorem beaten_run : GateRun Sample.config beaten 10 beats :=
  (GateRun.start.request (Nat.zero_le 0) Sample.scope
    (beat (js "a") [js "log-levels-v1", js "frame-locals-v1"]) rfl).request (Nat.zero_le 10) Sample.scope
      (beat (js "b") [js "log-levels-v1"]) rfl

/-- The levels of a log are tested for and found, the locals of frames are not. -/
theorem beaten_tested :
    js "log-levels-v1" ∈ beaten.testedCapabilities 20 Sample.scope (js "api") ∧
      js "frame-locals-v1" ∉ beaten.testedCapabilities 20 Sample.scope (js "api") := by
  have hb : Heartbeat.last beats Sample.scope (js "api") (js "b") =
      some ⟨10, Sample.scope, js "api", js "b", [js "log-levels-v1"]⟩ := rfl
  have hexact := (capabilities_exact beaten_run (show 10 ≤ 20 by decide) Sample.scope).2.1 (js "api")
  constructor
  · refine (hexact _).2 ⟨⟨js "b", _, hb, by decide⟩, fun agent h hlast _ => ?_⟩
    have hin := List.mem_of_mem_filter (List.mem_of_getLast? hlast)
    rcases List.mem_pair.1 hin with rfl | rfl <;> decide
  · intro hin
    exact absurd (((hexact _).1 hin).2 (js "b") _ hb (by decide)) (by decide)

end BrokerState
