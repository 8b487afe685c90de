/-
LiveProbe/ArmedAt.lean

When a probe was first armed.

A `History` of the broker remembers, for every probe, the timestamp of the
first accepted event that armed it.  Expiry, the derivation from native
statuses and the snapshots carry `armedAt` along; `ingest` writes the timestamp
of every armed event over it, so re-arming after a pause moves it
(`armedAt_moved`).  Where no accepted batch of a managed agent arms a probe
again at another time, `armedAt` is the first time until the probe is deleted
(`armedAt_stable`).
-/
import LiveProbe.History
import LiveProbe.LogicalStatus
import LiveProbe.NativeStatus

open JsString Schema Broker Protocol BrokerState

/-! ### The memory -/

/-- Whether an event says that its probe is armed. -/
def ProbeEvent.isArmed (e : ProbeEvent) : Bool :=
  match e.body with
  | .status status _ _ => status = .armed
  | _ => false

/-- When each probe was first armed. -/
abbrev FirstArmed := JsString → Option JsString

namespace FirstArmed

/-- Of a probe that does not exist nothing is remembered. -/
def restrict (first : FirstArmed) (s : BrokerState) : FirstArmed :=
  fun id => if s.probes.has id then first id else none

/-- An armed event is remembered if its probe was not armed before and is armed
in the state after it. -/
def note (first : FirstArmed) (e : ProbeEvent) (t : BrokerState) : FirstArmed :=
  if e.isArmed && (first e.probeId).isNone &&
      (t.statuses.get? e.probeId).any (fun status => status.status = .armed) then
    Function.update first e.probeId (some e.ts)
  else first

/-- The events of an accepted batch are noted one after another. -/
def store (step : BrokerState → ProbeEvent → BrokerState) :
    List ProbeEvent → BrokerState → FirstArmed → FirstArmed
  | [], _, first => first
  | e :: rest, s, first => store step rest (step s e) (first.note e (step s e))

/-- What a request adds to the memory. -/
def remember (cfg : Config) (now : ℕ) (scope : ResourceScope) (r : Request) (s : BrokerState)
    (first : FirstArmed) : FirstArmed :=
  match r with
  | .ingest input =>
    match checkEvents input scope (s.expireDueProbes cfg now) input.events with
    | .error _ => first.restrict s
    | .ok () =>
      store (ingestEvent cfg) input.events ((s.expireDueProbes cfg now).ingestAgent now input scope)
        (first.restrict s)
  | .ingestNative input =>
    match s.nativeBatch now scope input with
    | none => first.restrict s
    | some (t, accepted) => store (ingestNativeEvent cfg scope input) accepted t (first.restrict s)
  | _ => first.restrict s

variable {first : FirstArmed} {e : ProbeEvent} {s t : BrokerState} {id ts : JsString}

theorem restrict_of_has (h : s.probes.has id = true) : first.restrict s id = first id := if_pos h

theorem note_of_some (h : first e.probeId ≠ none) : first.note e t = first := by
  refine if_neg ?_
  rw [Bool.and_eq_true, Bool.and_eq_true, Option.isNone_iff_eq_none]
  exact fun hand => h hand.1.2

theorem note_of_not_armed
    (h : ∀ status, t.statuses.get? e.probeId = some status → status.status ≠ .armed) :
    first.note e t = first := by
  refine if_neg ?_
  rw [Bool.and_eq_true, Option.any_eq_true]
  rintro ⟨-, status, hstatus, hname⟩
  exact h status hstatus (of_decide_eq_true hname)

theorem note_of_armed {status : ProbeStatus} (he : e.isArmed = true) (h : first e.probeId = none)
    (hstatus : t.statuses.get? e.probeId = some status) (hname : status.status = .armed) :
    first.note e t = Function.update first e.probeId (some e.ts) := by
  refine if_pos ?_
  rw [he, h, hstatus]
  exact decide_eq_true hname

/-- What is remembered stays. -/
theorem note_keeps (h : first id = some ts) : first.note e t id = some ts := by
  unfold note
  split
  · next hnote =>
    rw [Bool.and_eq_true, Bool.and_eq_true, Option.isNone_iff_eq_none] at hnote
    rw [Function.update_of_ne, h]
    rintro rfl
    rw [hnote.1.2] at h
    cases h
  · exact h

theorem note_of_ne (h : id ≠ e.probeId) : first.note e t id = first id := by
  unfold note
  split
  · exact Function.update_of_ne h ..
  · rfl

theorem store_keeps {step : BrokerState → ProbeEvent → BrokerState} {l : List ProbeEvent}
    (h : first id = some ts) : store step l s first id = some ts := by
  induction l generalizing s first with
  | nil => exact h
  | cons e l ih => exact ih (note_keeps h)

theorem remember_keeps {cfg : Config} {now : ℕ} {scope : ResourceScope} {r : Request}
    (hid : s.probes.has id = true) (h : first id = some ts) :
    remember cfg now scope r s first id = some ts := by
  have hr : first.restrict s id = some ts := (restrict_of_has hid).trans h
  cases r with
  | ingest input =>
    simp only [remember]
    rcases checkEvents input scope (s.expireDueProbes cfg now) input.events with - | ⟨⟩
    · exact hr
    · exact store_keeps hr
  | ingestNative input =>
    simp only [remember]
    rcases s.nativeBatch now scope input with - | ⟨t, accepted⟩
    · exact hr
    · exact store_keeps hr
  | _ => exact hr

end FirstArmed

namespace BrokerState

variable {cfg : Config} {now : ℕ} {scope : ResourceScope} {r : Request} {s t : BrokerState}
  {first : FirstArmed}

/-! ### The invariant -/

/-- The statuses against what is remembered. -/
structure Armed (s : BrokerState) (first : FirstArmed) : Prop where
  shown : ∀ id, s.probes.has id = true → (s.statuses.get? id).bind (·.armedAt) = first id
  /-- A probe that is armed has been armed. -/
  dated : s.statuses.All fun _ status => status.status = .armed → status.armedAt ≠ none
  /-- Native agents do not report the instant. -/
  bare : s.nativeStatuses.All fun _ status => status.armedAt = none
  /-- An armed status of a live probe has been noted. -/
  heard : ∀ k status id stored, s.nativeStatuses.get? k = some status → status.status = .armed →
    (splitNul k)[1]? = some id → s.probes.get? id = some stored → stored.expired = false →
      first id ≠ none

theorem Armed.init (first : FirstArmed) : Armed {} first where
  shown := fun id hid => by cases hid
  dated := .empty
  bare := .empty
  heard := fun k status id stored hk => by cases hk

theorem Armed.restrict (h : Armed s first) : Armed s (first.restrict s) where
  shown := fun id hid => (h.shown id hid).trans (FirstArmed.restrict_of_has hid).symm
  dated := h.dated
  bare := h.bare
  heard := by
    intro k status id stored hk hname hid hstored hlive
    have hhas : s.probes.has id = true := by rw [JsMap.has, hstored]; rfl
    rw [FirstArmed.restrict_of_has hhas]
    exact h.heard k status id stored hk hname hid hstored hlive

/-- Probes may expire and leave with their statuses. -/
theorem Armed.shrink (h : Armed s first)
    (hprobes : ∀ id stored, t.probes.get? id = some stored →
      ∃ old, s.probes.get? id = some old ∧ (stored.expired = false → old.expired = false))
    (hkept : ∀ id, t.probes.has id = true → t.statuses.get? id = s.statuses.get? id)
    (hsubset : ∀ id status, t.statuses.get? id = some status → s.statuses.get? id = some status)
    (hnative : t.nativeStatuses = s.nativeStatuses) : Armed t first where
  shown := by
    intro id hid
    obtain ⟨stored, hstored⟩ := Option.isSome_iff_exists.mp hid
    obtain ⟨old, hold, -⟩ := hprobes id stored hstored
    rw [hkept id hid]
    refine h.shown id ?_
    rw [JsMap.has, hold]
    rfl
  dated := fun id status hstatus => h.dated id status (hsubset id status hstatus)
  bare := hnative ▸ h.bare
  heard := by
    intro k status id stored hk hname hid hstored hlive
    obtain ⟨old, hold, hx⟩ := hprobes id stored hstored
    exact h.heard k status id old (hnative ▸ hk) hname hid hold (hx hlive)

theorem Armed.congr (h : Armed s first) (hprobes : t.probes = s.probes)
    (hstatuses : t.statuses = s.statuses) (hnative : t.nativeStatuses = s.nativeStatuses) :
    Armed t first := by
  refine h.shrink (fun id stored hstored => ⟨stored, hprobes ▸ hstored, fun hx => hx⟩) ?_ ?_ hnative
  · exact fun id _ => by rw [hstatuses]
  · exact fun id status hstatus => hstatuses ▸ hstatus

/-! ### Steps -/

theorem Armed.expireProbe (h : Armed s first) (hi : Indexed s) {e : JsString × StoredProbe}
    (he : e ∈ s.probes.entries) (hdue : e.2.due now = true) :
    Armed (s.expireProbe cfg now e) first := by
  have hfound : s.probes.get? e.1 = some e.2 := JsMap.get?_eq_some_iff.mpr he
  obtain ⟨hkey, -⟩ := hi.probes _ _ hfound
  have hhas : s.probes.has e.1 = true := by rw [JsMap.has, hfound]; rfl
  have hprobes : (s.expireProbe cfg now e).probes = s.probes.set e.1 e.2.markExpired := by
    rw [probes_expireProbe, if_pos hdue]
  have hstatuses : (s.expireProbe cfg now e).statuses =
      s.statuses.set e.1 (s.expiredStatus now e.1) := by
    rw [BrokerState.expireProbe, if_pos hdue, hkey]
    rfl
  have hnative : (s.expireProbe cfg now e).nativeStatuses = s.nativeStatuses := by
    rw [BrokerState.expireProbe, if_pos hdue]
    rfl
  refine ⟨fun id hid => ?_, ?_, hnative ▸ h.bare, ?_⟩
  · rw [hstatuses]
    by_cases hid' : id = e.1
    · -- the status of the expired probe carries the instant
      rw [hid', JsMap.get?_set_self]
      exact h.shown e.1 hhas
    · rw [JsMap.get?_set_of_ne hid']
      refine h.shown id ?_
      rwa [hprobes, JsMap.has, JsMap.get?_set_of_ne hid'] at hid
  · rw [hstatuses]
    refine h.dated.set ?_
    exact fun hname => by cases hname
  · intro k status id stored hk hname hid hstored hlive
    rw [hprobes] at hstored
    by_cases hid' : id = e.1
    · rw [hid', JsMap.get?_set_self] at hstored
      cases hstored
      cases hlive
    · rw [JsMap.get?_set_of_ne hid'] at hstored
      exact h.heard k status id stored (hnative ▸ hk) hname hid hstored hlive

theorem Armed.expireDueProbes (h : Armed s first) (hi : Indexed s) :
    Armed (s.expireDueProbes cfg now) first := by
  have hboth : Indexed (s.expireDueProbes cfg now) ∧ Armed (s.expireDueProbes cfg now) first :=
    expireDueProbes_induction (P := fun t => Indexed t ∧ Armed t first) ⟨hi, h⟩
      fun t e ⟨hi, h⟩ he hdue => ⟨hi.expireProbe he hdue, h.expireProbe hi he hdue⟩
  exact hboth.2

/-- No native status that is recorded names the probe. -/
def Unnamed (s : BrokerState) (id : JsString) : Prop :=
  ∀ k status, s.nativeStatuses.get? k = some status → (splitNul k)[1]? ≠ some id

/-- A probe enters that was never heard of. -/
theorem Armed.create (h : Armed s first) {probe : ProbeDefinition}
    (hstatuses : s.statuses.get? probe.id = none)
    (hfirst : first probe.id = none) (hunnamed : s.Unnamed probe.id) (serviceId : JsString) :
    Armed ((s.incrementServiceVersion serviceId scope).insertProbe now scope probe) first where
  shown := by
    intro id hid
    show (s.statuses.get? id).bind _ = _
    by_cases hid' : id = probe.id
    · rw [hid', hstatuses, hfirst]
      rfl
    · refine h.shown id ?_
      change (s.probes.set probe.id _).has id = true at hid
      rwa [JsMap.has, JsMap.get?_set_of_ne hid'] at hid
  dated := h.dated
  bare := h.bare
  heard := by
    intro k status id stored hk hname hid hstored hlive
    change (s.probes.set probe.id _).get? id = some stored at hstored
    by_cases hid' : id = probe.id
    · exact absurd (hid' ▸ hid) (hunnamed k status hk)
    · rw [JsMap.get?_set_of_ne hid'] at hstored
      exact h.heard k status id stored hk hname hid hstored hlive

/-- Everything but the events of a batch leaves the memory as it is. -/
theorem Armed.change (h : Armed s first) (hi : Indexed s) (hrecords : Records cfg .schemas s)
    (hr : ∀ input, r ≠ .ingest input) (hr' : ∀ input, r ≠ .ingestNative input)
    (hcreate : ∀ draws input id, r = .createProbe draws input → s.drawProbeId draws = some id →
      first id = none ∧ s.Unnamed id)
    (hc : Change cfg now scope r s t) : Armed t first := by
  have hnative : t.nativeStatuses = s.nativeStatuses := by
    rcases nativeStatuses_change hc with hn | ⟨input, _, _, _, hingest, -⟩
    · exact hn
    · exact absurd hingest (hr' input)
  rcases probes_change hc with hp | rfl |
    ⟨draws, input, compiled, id, probe, hcreated, -, hdrawn, hparsed, rfl⟩ |
    ⟨id, stored, hdelete, hfound, -, hp⟩
  · rcases statuses_change hc with hs | rfl | ⟨id, stored, -, hfound, -, hp', -⟩ |
      ⟨input, _, _, hingest, -⟩ | ⟨input, _, _, _, _, _, hingest, -⟩
    · exact h.congr hp hs hnative
    · exact h.expireDueProbes hi
    · have hgone : s.probes.get? id = none := by rw [← hp, hp', JsMap.get?_delete_self]
      rw [hgone] at hfound
      cases hfound
    · exact absurd hingest (hr input)
    · exact absurd hingest (hr' input)
  · exact h.expireDueProbes hi
  · obtain ⟨hfirst, hunnamed⟩ := hcreate draws input id hcreated hdrawn
    have hid : probe.id = id := (newDefinition_parsed hparsed).1
    have hstatuses : s.statuses.get? id = none := by
      rw [← Option.not_isSome_iff_eq_none]
      intro hhas
      have hknown := hrecords.known id (.inr hhas)
      rw [drawProbeId_fresh hdrawn] at hknown
      cases hknown
    rw [← hid] at hfirst hunnamed hstatuses
    exact h.create hstatuses hfirst hunnamed input.serviceId
  · have hshrink : ∀ id' stored', t.probes.get? id' = some stored' →
        id' ≠ id ∧ s.probes.get? id' = some stored' := by
      intro id' stored' hstored'
      rw [hp, JsMap.get?_delete] at hstored'
      split at hstored'
      · cases hstored'
      · next hne => exact ⟨hne, hstored'⟩
    have hprobes : ∀ id' stored', t.probes.get? id' = some stored' →
        ∃ old, s.probes.get? id' = some old ∧ (stored'.expired = false → old.expired = false) :=
      fun id' stored' hstored' => ⟨stored', (hshrink id' stored' hstored').2, fun hx => hx⟩
    rcases statuses_change hc with hs | rfl | ⟨id', stored', hdelete', -, -, -, hs⟩ |
      ⟨input, _, _, hingest, -⟩ | ⟨input, _, _, _, _, _, hingest, -⟩
    · exact h.shrink hprobes (fun id' _ => by rw [hs]) (fun id' status hs' => hs ▸ hs') hnative
    · exact h.expireDueProbes hi
    · obtain rfl : id = id' := Request.deleteProbe.inj (hdelete.symm.trans hdelete')
      refine h.shrink hprobes (fun id' hid' => ?_) (fun id' status hs' => ?_) hnative
      · obtain ⟨stored', hstored'⟩ := Option.isSome_iff_exists.mp hid'
        rw [hs, JsMap.get?_delete_of_ne (hshrink id' stored' hstored').1]
      · rw [hs, JsMap.get?_delete] at hs'
        split at hs'
        · cases hs'
        · exact hs'
    · exact absurd hingest (hr input)
    · exact absurd hingest (hr' input)

/-! ### Events -/

/-- Where the status does not change there is nothing to note. -/
theorem Armed.note_of_same (h : Armed s first) {e : ProbeEvent} (hhas : s.probes.has e.probeId = true)
    (hsame : t.statuses.get? e.probeId = s.statuses.get? e.probeId) : first.note e t = first := by
  by_cases hfirst : first e.probeId = none
  · refine FirstArmed.note_of_not_armed fun status hstatus hname => ?_
    rw [hsame] at hstatus
    have hshown := h.shown e.probeId hhas
    rw [hstatus, hfirst] at hshown
    exact h.dated _ _ hstatus hname hshown
  · exact FirstArmed.note_of_some hfirst

/-- A status is written, and what has to be is noted. -/
theorem Armed.record (h : Armed s first) {e : ProbeEvent} {status : ProbeStatus}
    (hprobes : t.probes = s.probes) (hstatuses : t.statuses = s.statuses.set e.probeId status)
    (hat : status.armedAt = first.note e t e.probeId)
    (hdated : status.status = .armed → status.armedAt ≠ none)
    (hbare : t.nativeStatuses.All fun _ status => status.armedAt = none)
    (hnative : ∀ k status id, t.nativeStatuses.get? k = some status → status.status = .armed →
      (splitNul k)[1]? = some id → s.nativeStatuses.get? k = some status ∨ first.note e t id ≠ none) :
    Armed t (first.note e t) where
  shown := by
    intro id hid
    rw [hprobes] at hid
    rw [hstatuses]
    by_cases hid' : id = e.probeId
    · rw [hid', JsMap.get?_set_self]
      exact hat
    · rw [JsMap.get?_set_of_ne hid', FirstArmed.note_of_ne hid']
      exact h.shown id hid
  dated := by
    rw [hstatuses]
    exact h.dated.set hdated
  bare := hbare
  heard := by
    intro k status' id stored hk hname hid hstored hlive
    rcases hnative k status' id hk hname hid with hold | hnoted
    · obtain ⟨ts, hts⟩ := Option.ne_none_iff_exists'.mp
        (h.heard k status' id stored hold hname hid (hprobes ▸ hstored) hlive)
      rw [FirstArmed.note_keeps hts]
      exact Option.some_ne_none ts
    · exact hnoted

/-- A status event of a managed agent, unless it arms the probe again at another time. -/
theorem Armed.event (h : Armed s first) {e : ProbeEvent} (hhas : s.probes.has e.probeId = true)
    (hagain : e.isArmed = true → first e.probeId = none ∨ first e.probeId = some e.ts) :
    Armed (s.ingestEvent cfg e) (first.note e (s.ingestEvent cfg e)) := by
  have hprobes : (s.ingestEvent cfg e).probes = s.probes := probes_ingestEvent s e
  obtain ⟨statuses, hstatuses, heq⟩ := ingestEvent_eq cfg s e
  have hnative : (s.ingestEvent cfg e).nativeStatuses = s.nativeStatuses := by rw [heq]; rfl
  have hset : (s.ingestEvent cfg e).statuses = statuses := by rw [heq]
  rcases hstatuses with rfl | ⟨status, hstatus, rfl⟩
  · rw [h.note_of_same hhas (by rw [hset])]
    exact h.congr hprobes hset hnative
  · unfold ingestedStatus at hstatus
    split at hstatus
    · next name detail metadata hbody =>
      have harmed : e.isArmed = decide (name = .armed) := by rw [ProbeEvent.isArmed, hbody]
      cases hstatus
      have hread := (congrArg (·.get? e.probeId) hset).trans (JsMap.get?_set_self ..)
      by_cases hname : name = .armed
      · have hat : first.note e (s.ingestEvent cfg e) e.probeId = some e.ts := by
          rcases hagain (harmed.trans (decide_eq_true hname)) with hnone | hsome
          · rw [FirstArmed.note_of_armed (harmed.trans (decide_eq_true hname)) hnone hread hname,
              Function.update_self]
          · exact FirstArmed.note_keeps hsome
        refine h.record hprobes hset ?_ ?_ (hnative ▸ h.bare) ?_
        · rw [hat]
          exact if_pos hname
        · intro _
          rw [show _ = some e.ts from if_pos hname]
          exact Option.some_ne_none _
        · exact fun k status id hk _ _ => .inl (hnative ▸ hk)
      · have hat : first.note e (s.ingestEvent cfg e) = first := by
          refine FirstArmed.note_of_not_armed fun status hstatus => ?_
          rw [hread] at hstatus
          cases hstatus
          exact hname
        refine h.record hprobes hset ?_ ?_ (hnative ▸ h.bare) ?_
        · rw [hat, ← h.shown _ hhas]
          exact if_neg hname
        · exact fun hname' => absurd hname' hname
        · exact fun k status id hk _ _ => .inl (hnative ▸ hk)
    · cases hstatus

/-- A native status is recorded, and the logical status stays. -/
theorem Armed.withNativeStatus (h : Armed s first) {input : NativeIngestEnvelope} {e : ProbeEvent}
    {status : ProbeStatus} (hbare : status.armedAt = none) (hnul : nul ∉ e.probeId)
    (hheard : status.status = .armed → ∀ stored, s.probes.get? e.probeId = some stored →
      stored.expired = false → first e.probeId ≠ none) :
    Armed (s.withNativeStatus scope input (statusKeyOf scope input e) status) first where
  shown := h.shown
  dated := h.dated
  bare := h.bare.set hbare
  heard := by
    intro k status' id stored hk hname hid hstored hlive
    change (s.nativeStatuses.set _ status).get? k = some status' at hk
    by_cases hkey : k = statusKeyOf scope input e
    · rw [hkey, JsMap.get?_set_self] at hk
      cases hk
      rw [hkey, splitNul_statusKeyOf hnul] at hid
      cases hid
      exact hheard hname stored hstored hlive
    · rw [JsMap.get?_set_of_ne hkey] at hk
      exact h.heard k status' id stored hk hname hid hstored hlive

/-- An armed status of a live probe that was never armed is the one just recorded. -/
theorem Armed.reported_armed (h : Armed s first) (scope : ResourceScope) (input : NativeIngestEnvelope)
    (status armed : ProbeStatus) {e : ProbeEvent} {stored : StoredProbe} (hnul : nul ∉ e.probeId)
    (hstored : s.probes.get? e.probeId = some stored) (hlive : stored.expired = false)
    (hfirst : first e.probeId = none)
    (hmem : armed ∈ (s.withNativeStatus scope input (statusKeyOf scope input e) status).reported scope
      stored e.probeId) (hname : armed.status = .armed) : armed = status := by
  obtain ⟨i, -, -, -, hk⟩ := mem_instanceStatuses.mp (mem_reported.mp hmem)
  change (s.nativeStatuses.set _ status).get? _ = some armed at hk
  rw [JsMap.get?_set] at hk
  split at hk
  · exact (Option.some.inj hk).symm
  · refine absurd hfirst (h.heard _ armed _ stored hk hname ?_ hstored hlive)
    rw [nativeStatusKey, splitNul_append (nul_notMem_resourceScopeKey scope), splitNul_append hnul]
    rfl

/-- An event of a native agent. -/
theorem Armed.nativeEvent (h : Armed s first) (hrecords : Records cfg .schemas s)
    {input : NativeIngestEnvelope} {i : NativeInstanceRecord} {stored : StoredProbe} {e : ProbeEvent}
    (hnul : nul ∉ e.probeId)
    (hi : s.nativeInstances.get? (nativeInstanceKey scope input.agentId input.instanceId) = some i)
    (ht : isTarget input i = true) (hstored : s.probes.get? e.probeId = some stored)
    (hchecked : checkNativeEvent input scope stored e = .ok ()) :
    Armed (s.ingestNativeEvent cfg scope input e)
      (first.note e (s.ingestNativeEvent cfg scope input e)) := by
  have hhas : s.probes.has e.probeId = true := by rw [JsMap.has, hstored]; rfl
  have hprobes : (s.ingestNativeEvent cfg scope input e).probes = s.probes :=
    probes_ingestNativeEvent input s e
  rcases ingestNativeEvent_eq cfg scope input s e with heq | ⟨status, hstatus, -, heq⟩
  · rw [h.note_of_same hhas (by rw [heq]; rfl), heq]
    exact h.congr rfl rfl rfl
  have hbare : status.armedAt = none := by
    unfold nativeStatusOf at hstatus
    split at hstatus <;> cases hstatus
    rfl
  have harmed : e.isArmed = decide (status.status = .armed) ∧ status.updatedAt = e.ts := by
    unfold nativeStatusOf at hstatus
    split at hstatus
    · next name detail metadata hbody =>
      cases hstatus
      exact ⟨by rw [ProbeEvent.isArmed, hbody], rfl⟩
    · cases hstatus
  have happended : Armed (s.appendEvent cfg e) first := h.congr rfl rfl rfl
  have hmem := mem_reported_withNativeStatus (s := s.appendEvent cfg e) hrecords.nativeInstances hi ht
    hchecked status
  have hheld := fun armed => happended.reported_armed scope input status armed hnul hstored
  generalize hu : (s.appendEvent cfg e).withNativeStatus scope input (statusKeyOf scope input e)
    status = u at heq hmem hheld
  have hustatuses : u.statuses = s.statuses := by rw [← hu]; rfl
  have hunative : u.nativeStatuses = s.nativeStatuses.set (statusKeyOf scope input e) status := by
    rw [← hu]; rfl
  rw [deriveNativeLogicalStatus_of_stored (by rw [← hu]; exact hstored)
    (checkNativeEvent_eq_ok hchecked).1] at heq
  by_cases hlive : stored.expired = true
  · -- an expired probe keeps its logical status
    rw [if_pos hlive] at heq
    rw [h.note_of_same hhas (by rw [heq, hustatuses]), heq, ← hu]
    refine happended.withNativeStatus hbare hnul fun _ stored' hstored' hlive' => ?_
    rw [show s.probes.get? e.probeId = some stored' from hstored'] at hstored
    cases hstored
    rw [hlive] at hlive'
    cases hlive'
  rw [if_neg hlive] at heq
  rw [Bool.not_eq_true] at hlive
  have hshown := h.shown e.probeId hhas
  rcases hd : u.derivedStatus scope stored e.probeId with - | derived
  · rw [hd] at heq
    dsimp only at heq
    rw [h.note_of_same hhas (by rw [heq, hustatuses]), heq, ← hu]
    refine happended.withNativeStatus hbare hnul fun hname => ?_
    obtain ⟨derived, hderived, -⟩ := derivedStatus_of_armed hmem hname
    rw [hd] at hderived
    cases hderived
  · rw [hd] at heq
    dsimp only at heq
    obtain ⟨chosen, hchosen, hsame, hany, hat⟩ := derivedStatus_eq_some hd
    have hubare : u.nativeStatuses.All fun _ status => status.armedAt = none := by
      rw [hunative]
      exact h.bare.set hbare
    have hchosenBare : chosen.armedAt = none := by
      obtain ⟨i', -, -, -, hk⟩ := mem_instanceStatuses.mp (mem_reported.mp hchosen)
      exact hubare _ _ hk
    have hset : (s.ingestNativeEvent cfg scope input e).statuses =
        s.statuses.set e.probeId derived := by rw [heq, ← hustatuses]
    have hnative : (s.ingestNativeEvent cfg scope input e).nativeStatuses = u.nativeStatuses := by
      rw [heq]
    have hread := (congrArg (·.get? e.probeId) hset).trans (JsMap.get?_set_self ..)
    rw [← hustatuses] at hshown
    have hgoal : derived.armedAt = first.note e (s.ingestNativeEvent cfg scope input e) e.probeId ∧
        (derived.status = .armed → derived.armedAt ≠ none) := by
      rcases hfirst : first e.probeId with - | ts
      · rw [hfirst] at hshown
        by_cases hname : status.status = .armed
        · -- the probe is armed for the first time
          have hderived : derived.status = .armed := hsame.trans (hany ⟨status, hmem, hname⟩)
          rw [deriveNativeArmedAt_first hshown
            (fun armed ha hn => (hheld armed hlive hfirst ha hn) ▸ harmed.2) ⟨status, hmem, hname⟩]
            at hat
          rw [FirstArmed.note_of_armed (harmed.1.trans (decide_eq_true hname)) hfirst hread hderived,
            Function.update_self, hat]
          exact ⟨rfl, fun _ => Option.some_ne_none _⟩
        · -- no instance is armed
          have hnone : ∀ armed ∈ u.reported scope stored e.probeId, armed.status ≠ .armed :=
            fun armed ha hn => hname ((hheld armed hlive hfirst ha hn) ▸ hn)
          rw [deriveNativeArmedAt_none hshown hnone, hchosenBare] at hat
          have hother : derived.status ≠ .armed := fun hn => hnone chosen hchosen (hsame ▸ hn)
          rw [FirstArmed.note_of_not_armed, hfirst, hat]
          · exact ⟨rfl, fun hn => absurd hn hother⟩
          · intro status' hstatus'
            rw [hread] at hstatus'
            cases hstatus'
            exact hother
      · rw [deriveNativeArmedAt_carried (hshown.trans hfirst)] at hat
        rw [FirstArmed.note_keeps hfirst, hat]
        exact ⟨rfl, fun _ => Option.some_ne_none _⟩
    refine h.record hprobes hset hgoal.1 hgoal.2 (hnative ▸ hubare) fun k status' id hk hname hid => ?_
    rw [hnative, hunative] at hk
    by_cases hkey : k = statusKeyOf scope input e
    · right
      rw [hkey, JsMap.get?_set_self] at hk
      cases hk
      rw [hkey, splitNul_statusKeyOf hnul] at hid
      cases hid
      rw [← hgoal.1]
      exact hgoal.2 (hsame.trans (hany ⟨status, hmem, hname⟩))
    · left
      rwa [JsMap.get?_set_of_ne hkey] at hk

/-! ### Requests -/

theorem Armed.ingestEvents (h : Armed s first) {events : List ProbeEvent}
    (hhas : ∀ e ∈ events, s.probes.has e.probeId = true)
    (hagain : ∀ e ∈ events, e.isArmed = true →
      FirstArmed.store (ingestEvent cfg) events s first e.probeId = some e.ts) :
    Armed (events.foldl (ingestEvent cfg) s)
      (FirstArmed.store (ingestEvent cfg) events s first) := by
  induction events generalizing s first with
  | nil => exact h
  | cons e events ih =>
    refine ih (h.event (hhas e List.mem_cons_self) fun he => ?_) ?_ ?_
    · have hts := hagain e List.mem_cons_self he
      rcases hfirst : first e.probeId with - | ts
      · exact .inl rfl
      · rw [FirstArmed.store_keeps hfirst] at hts
        exact .inr hts
    · intro e' he'
      rw [probes_ingestEvent]
      exact hhas e' (List.mem_cons_of_mem _ he')
    · exact fun e' he' => hagain e' (List.mem_cons_of_mem _ he')

theorem Armed.ingestNativeEvents (h : Armed s first) (hi : Indexed s) (hr : Records cfg .schemas s)
    {input : NativeIngestEnvelope} (hv : (Request.ingestNative input).Valid) {i : NativeInstanceRecord}
    (hinst : s.nativeInstances.get? (nativeInstanceKey scope input.agentId input.instanceId) = some i)
    (ht : isTarget input i = true) {events : List ProbeEvent}
    (hevents : ∀ e ∈ events, e ∈ input.events ∧ ∃ stored, s.probes.get? e.probeId = some stored ∧
      checkNativeEvent input scope stored e = .ok ()) :
    Armed (events.foldl (ingestNativeEvent cfg scope input) s)
      (FirstArmed.store (ingestNativeEvent cfg scope input) events s first) := by
  induction events generalizing s first with
  | nil => exact h
  | cons e events ih =>
    obtain ⟨hmem, stored, hstored, hchecked⟩ := hevents e List.mem_cons_self
    have hc : Change cfg 0 scope (.ingestNative input) s (s.ingestNativeEvent cfg scope input e) :=
      .nativeEvent input i stored e rfl hmem hinst ht hstored hchecked
    have hnul : nul ∉ e.probeId := nul_notMem_probeId (hi.probeId hstored)
    refine ih (h.nativeEvent hr hnul hinst ht hstored hchecked) (hi.change hv hc)
      (hr.change hi hv (Limits.schemas_admits ..) hc) ?_ ?_
    · rw [nativeInstances_ingestNativeEvent]
      exact hinst
    · intro e' he'
      rw [probes_ingestNativeEvent]
      exact hevents e' (List.mem_cons_of_mem _ he')

/-- A request that is neither kind of batch. -/
theorem Armed.changes (h : Armed s first) (hi : Indexed s) (hrecords : Records cfg .schemas s)
    (hv : r.Valid) (hr : ∀ input, r ≠ .ingest input) (hr' : ∀ input, r ≠ .ingestNative input)
    (hcreate : ∀ draws input, r = .createProbe draws input → ∀ n, s.probes.has (draws n) = false →
      s.Unnamed (draws n))
    (hc : Changes cfg now scope r s t) : Armed t (first.restrict s) := by
  -- of a request that creates a probe: no probe leaves, no native status changes
  have hall : Armed t (first.restrict s) ∧ ((∃ draws input, r = .createProbe draws input) →
      (∀ id, s.probes.has id = true → t.probes.has id = true) ∧
        t.nativeStatuses = s.nativeStatuses) := by
    refine hrecords.changes_induction (I := fun u => Armed u (first.restrict s) ∧
      ((∃ draws input, r = .createProbe draws input) →
        (∀ id, s.probes.has id = true → u.probes.has id = true) ∧
          u.nativeStatuses = s.nativeStatuses))
      hi hv ⟨h.restrict, fun _ => ⟨fun _ hid => hid, rfl⟩⟩ (fun u v hi hu ⟨hI, hsame⟩ hc => ⟨?_, ?_⟩) hc
    · refine hI.change hi hu hr hr' (fun draws input id hcreated hdrawn => ?_) hc
      obtain ⟨hhas, hnative⟩ := hsame ⟨draws, input, hcreated⟩
      have hfresh : s.probes.has id = false := by
        rw [← Bool.not_eq_true]
        intro hid
        have hlater := hhas id hid
        rw [drawProbeId_fresh hdrawn] at hlater
        cases hlater
      refine ⟨if_neg (by rw [hfresh]; exact Bool.false_ne_true), ?_⟩
      obtain ⟨n, -, rfl⟩ := List.mem_map.mp (List.mem_of_find?_eq_some hdrawn)
      exact fun k status hk => hcreate draws input hcreated n hfresh k status (hnative ▸ hk)
    · rintro ⟨draws, input, hcreated⟩
      obtain ⟨hhas, hnative⟩ := hsame ⟨draws, input, hcreated⟩
      refine ⟨fun id hid => ?_, ?_⟩
      · obtain ⟨stored, hstored⟩ := Option.isSome_iff_exists.mp (hhas id hid)
        obtain ⟨kept, hkept, -⟩ := probe_survives hc hstored (fun hd => by rw [hcreated] at hd; cases hd)
        rw [JsMap.has, hkept]
        rfl
      · rcases nativeStatuses_change hc with hn | ⟨input', _, _, _, hingest, -⟩
        · exact hn.trans hnative
        · exact absurd hingest (hr' input')
  exact hall.1

/-- The request arms no probe again at another time, and draws no identifier
that a native status still names. -/
def Steady (cfg : Config) (now : ℕ) (scope : ResourceScope) (r : Request) (s : BrokerState)
    (first : FirstArmed) : Prop :=
  match r with
  | .ingest input =>
    checkEvents input scope (s.expireDueProbes cfg now) input.events = .ok () →
      ∀ e ∈ input.events, e.isArmed = true →
        FirstArmed.remember cfg now scope r s first e.probeId = some e.ts
  | .createProbe draws _ => ∀ n, s.probes.has (draws n) = false → s.Unnamed (draws n)
  | _ => True

theorem Armed.ingestNative (h : Armed s first) (hi : Indexed s) (hr : Records cfg .schemas s)
    {input : NativeIngestEnvelope} (hv : (Request.ingestNative input).Valid) :
    Armed (s.ingestNative cfg now input scope).1
      (FirstArmed.remember cfg now scope (.ingestNative input) s first) := by
  have hfirst := h.restrict
  rcases ingestNative_batch cfg now scope input s with
    ⟨hnone, removed, health, heq⟩ | ⟨t, accepted, hbatch, heq⟩
  · have hm : FirstArmed.remember cfg now scope (.ingestNative input) s first = first.restrict s := by
      simp only [FirstArmed.remember, hnone]
    rw [hm, heq]
    exact ⟨hfirst.shown, hfirst.dated, hfirst.bare, hfirst.heard⟩
  · have hm : FirstArmed.remember cfg now scope (.ingestNative input) s first =
        FirstArmed.store (ingestNativeEvent cfg scope input) accepted t (first.restrict s) := by
      simp only [FirstArmed.remember, hbatch]
    rw [hm, heq]
    obtain ⟨⟨removed, health, ht⟩, ⟨i, hinst, htarget⟩, hevents⟩ := nativeBatch_eq_some hbatch
    have hboth : Indexed t ∧ Records cfg .schemas t := by
      rw [ht]
      exact ⟨hi.congr rfl, { hr with }⟩
    have hstart : Armed t (first.restrict s) :=
      hfirst.congr (by rw [ht]) (by rw [ht]) (by rw [ht])
    have hstored := hstart.ingestNativeEvents hboth.1 hboth.2 hv (by rw [ht]; exact hinst) htarget
      (by rw [ht]; exact hevents)
    generalize accepted.foldl (ingestNativeEvent cfg scope input) t = u at hstored ⊢
    rcases touchNativeService_eq now scope input u with htouch | ⟨_, _, htouch⟩
    · rw [htouch]
      exact hstored
    · rw [htouch]
      exact hstored.congr rfl rfl rfl

theorem Armed.handle (h : Armed s first) (hi : Indexed s) (hr : Records cfg .schemas s)
    (hv : r.Valid) (hsteady : Steady cfg now scope r s first) :
    Armed (s.handle cfg now scope r).1 (FirstArmed.remember cfg now scope r s first) := by
  cases r with
  | ingest input =>
    have hx : Armed (s.expireDueProbes cfg now) (first.restrict s) := h.restrict.expireDueProbes hi
    show Armed (s.ingest cfg now input scope).1 _
    simp only [Steady, FirstArmed.remember, BrokerState.ingest] at hsteady ⊢
    rcases hok : checkEvents input scope (s.expireDueProbes cfg now) input.events with e | ⟨⟩
    · exact hx
    · rw [hok] at hsteady
      have hagent : Armed ((s.expireDueProbes cfg now).ingestAgent now input scope)
        (first.restrict s) := hx.congr rfl rfl rfl
      refine hagent.ingestEvents (fun e he => ?_) (hsteady rfl)
      have hchecked := checkEvents_eq_ok hok e he
      show (s.expireDueProbes cfg now).probes.has e.probeId = true
      rcases hstored : (s.expireDueProbes cfg now).probes.get? e.probeId with - | stored
      · rw [hstored] at hchecked
        cases hchecked
      · rw [JsMap.has, hstored]
        rfl
  | ingestNative input =>
    exact h.ingestNative hi hr hv
  | _ =>
    refine h.changes hi hr hv (fun _ h => by cases h) (fun _ h => by cases h) ?_
      (handle_changes cfg now scope _ s)
    rintro draws input hcreated
    first
    | cases hcreated
      exact hsteady
    | cases hcreated

end BrokerState

/-! ### Restores -/

namespace BrokerState

variable {cfg : Config} {s : BrokerState} {first : FirstArmed}

/-- A native status that is read back names the probe it named. -/
theorem nativeStatus_of_refill {L : Limits} (t : BrokerState) (h : Records cfg L s) {n : ℕ}
    {b : BrokerSnapshot} (hb : s.snapshot n = some b) {k : JsString} {status : ProbeStatus}
    (hk : (t.refill cfg b).nativeStatuses.get? k = some status) :
    ∃ k', s.nativeStatuses.get? k' = some status ∧
      ∀ id, (splitNul k)[1]? = some id → (splitNul k')[1]? = some id := by
  have hp := snapshotSchema_eq_some.mp hb
  obtain ⟨q, hq, heq⟩ := List.mem_map.mp (JsMap.mem_of_mem_ofEntries (JsMap.get?_eq_some_iff.mp hk))
  obtain ⟨q₀, hq₀, hread⟩ := exists_of_mem_array hp.nativeStatuses hq
  obtain ⟨a, ha, haq⟩ := List.mem_filterMap.mp hq₀
  have hget := JsMap.get?_eq_some_iff.mpr ha
  have hst := (h.nativeStatuses _ _ hget).status
  simp only [nativeStatusEntry, Option.bind_eq_bind, Option.bind_eq_some_iff, Option.pure_def,
    Option.some.injEq] at haq
  obtain ⟨probeId, hprobe, _, -, _, -, _, -, _, -, rfl⟩ := haq
  simp only [nativeStatusEntrySchema, Option.bind_eq_bind, Option.bind_eq_some_iff,
    Option.pure_def, Option.some.injEq] at hread
  obtain ⟨_, -, _, h₂, _, -, v, -, _, -, _, -, _, -, _, h₇, rfl⟩ := hread
  obtain ⟨rfl, rfl⟩ := Prod.mk.inj heq
  obtain rfl := kept_refine _ _ h₂
  refine ⟨a.1, ?_, fun id hid => ?_⟩
  · rw [hst.kept h₇]
    exact hget
  · rw [nativeStatusKey, splitNul_append (nul_notMem_resourceScopeKey _),
      splitNul_append (nul_notMem_of_mem_splitNul (List.mem_of_getElem? hprobe))] at hid
    rw [hprobe]
    exact hid

theorem Armed.loadSnapshot (h : Armed s first) (hi : Indexed s) (hr : Records cfg .schemas s)
    (t : BrokerState) {now n : ℕ} {b : BrokerSnapshot} (hb : s.snapshot n = some b) :
    Armed (t.loadSnapshot cfg now b).1 first := by
  have hprobes : (t.refill cfg b).probes = s.probes := congrArg Prod.fst (core_refill cfg t hi hb)
  have hstatuses := statuses_refill t hr hb
  have hback : Armed (t.refill cfg b) first := by
    refine ⟨fun id hid => ?_, hstatuses ▸ h.dated, fun k status hk => ?_, ?_⟩
    · rw [hstatuses]
      rw [hprobes] at hid
      exact h.shown id hid
    · obtain ⟨k', hk', -⟩ := nativeStatus_of_refill t hr hb hk
      exact h.bare k' status hk'
    · intro k status id stored hk hname hid hstored hlive
      obtain ⟨k', hk', hnames⟩ := nativeStatus_of_refill t hr hb hk
      exact h.heard k' status id stored hk' hname (hnames id hid) (hprobes ▸ hstored) hlive
  rw [loadSnapshot_of_snapshot hb]
  exact hback.expireDueProbes (Indexed.refill (snapshotSchema_eq_some.mp hb))

/-- A probe of the scope exists. -/
def Holds (owner : ResourceScope) (id : JsString) (s : BrokerState) : Prop :=
  ∃ stored, s.probes.get? id = some stored ∧ stored.scope = owner

theorem Holds.change {owner scope : ResourceScope} {id : JsString} {now : ℕ} {r : Request}
    {t : BrokerState} (h : Holds owner id s) (hr : r = .deleteProbe id → scope ≠ owner)
    (hc : Change cfg now scope r s t) : Holds owner id t := by
  obtain ⟨stored, hstored, rfl⟩ := h
  obtain ⟨kept, hkept, hscope, -⟩ := probe_survives hc hstored hr
  exact ⟨kept, hkept, hscope⟩

theorem Holds.expireDueProbes {owner : ResourceScope} {id : JsString} {now : ℕ}
    (h : Holds owner id s) : Holds owner id (s.expireDueProbes cfg now) := by
  have hc : Change cfg now owner (.listProbes none) s (s.expireDueProbes cfg now) := .expire
  exact h.change (fun hr => by cases hr) hc

theorem Holds.loadSnapshot {owner : ResourceScope} {id : JsString} (h : Holds owner id s)
    (hi : Indexed s) (t : BrokerState) {now n : ℕ} {b : BrokerSnapshot}
    (hb : s.snapshot n = some b) : Holds owner id (t.loadSnapshot cfg now b).1 := by
  have hprobes : (t.refill cfg b).probes = s.probes := congrArg Prod.fst (core_refill cfg t hi hb)
  have hback : Holds owner id (t.refill cfg b) := by
    obtain ⟨stored, hstored, hscope⟩ := h
    exact ⟨stored, hprobes ▸ hstored, hscope⟩
  rw [loadSnapshot_of_snapshot hb]
  exact hback.expireDueProbes

end BrokerState

/-! ### Runs -/

namespace FirstArmed

variable {cfg : Config} {owner : ResourceScope} {id ts : JsString}

/-- The requests are valid and steady. -/
def Steady (cfg : Config) (p : History FirstArmed) : ProcessEvent → Prop
  | .request now scope r => r.Valid ∧ BrokerState.Steady cfg now scope r p.state p.memory
  | _ => True

/-- What `armedAt` rests on. -/
structure Invariant (cfg : Config) (s : BrokerState) (first : FirstArmed) : Prop where
  indexed : Indexed s
  records : Records cfg .schemas s
  armed : Armed s first

theorem Invariant.init (first : FirstArmed) : Invariant cfg {} first := ⟨.init, .init, .init first⟩

theorem Invariant.request {s : BrokerState} {first : FirstArmed} (h : Invariant cfg s first) {now : ℕ}
    {scope : ResourceScope} {r : Request} (hv : r.Valid)
    (hsteady : BrokerState.Steady cfg now scope r s first) :
    Invariant cfg (s.handle cfg now scope r).1 (remember cfg now scope r s first) where
  indexed := h.indexed.handle hv
  records := h.records.handle h.indexed hv (Limits.schemas_admits now scope r)
  armed := h.armed.handle h.indexed h.records hv hsteady

theorem Invariant.sweep {s : BrokerState} {first : FirstArmed} (h : Invariant cfg s first) (now : ℕ) :
    Invariant cfg (s.expireDueProbes cfg now) first where
  indexed := h.indexed.expireDueProbes
  records := h.records.expireDueProbes h.indexed trivial
  armed := h.armed.expireDueProbes h.indexed

theorem Invariant.load {s : BrokerState} {first : FirstArmed} (h : Invariant cfg s first)
    (t : BrokerState) {now n : ℕ} {b : BrokerSnapshot} (hb : s.snapshot n = some b) :
    Invariant cfg (t.loadSnapshot cfg now b).1 first where
  indexed := by
    rw [loadSnapshot_of_snapshot hb]
    exact (Indexed.refill (snapshotSchema_eq_some.mp hb)).expireDueProbes
  records := h.records.loadSnapshot t h.indexed hb trivial
  armed := h.armed.loadSnapshot h.indexed h.records t hb

/-- **`armedAt` is stable.**  In a run whose batches arm no probe again at another
time, `armedAt` of a probe that was armed is the time of the first event that
armed it, until the probe is deleted. -/
theorem armedAt_stable {p q : History FirstArmed}
    (hp : Reached (History.next cfg (remember cfg)) (Steady cfg) { memory := fun _ => none } p)
    (howned : Holds owner id p.state) (harmed : p.memory id = some ts)
    (hq : Reached (History.next cfg (remember cfg)) (fun p e => Steady cfg p e ∧ Process.Keeps owner id e)
      ⟨p.state, p.memory, []⟩ q) :
    ∃ status, q.state.statuses.get? id = some status ∧ status.armedAt = some ts := by
  have hinv : Invariant cfg p.state p.memory := by
    refine History.invariant_since (.init _) ?_ ?_ ?_ hp
    · exact fun p now scope r h hok => h.request hok.1 hok.2
    · exact fun p now h _ => h.sweep now
    · exact fun p e now _ _ s t m b n h hb => h.load t hb
  have hall : Invariant cfg q.state q.memory ∧ Holds owner id q.state ∧ q.memory id = some ts := by
    refine History.invariant_since
      (I := fun s first => Invariant cfg s first ∧ Holds owner id s ∧ first id = some ts)
      ⟨hinv, howned, harmed⟩ ?_ ?_ ?_ hq
    · rintro p now scope r ⟨h, hholds, hfirst⟩ ⟨⟨hv, hsteady⟩, hkeeps⟩
      have hhas : p.state.probes.has id = true := by
        obtain ⟨stored, hstored, -⟩ := hholds
        rw [JsMap.has, hstored]
        rfl
      refine ⟨h.request hv hsteady, ?_, remember_keeps hhas hfirst⟩
      refine h.indexed.changes_induction hv hholds (fun u v _ hu hc => hu.change ?_ hc)
        (handle_changes cfg now scope r p.state)
      rintro rfl rfl
      exact hkeeps now rfl
    · rintro p now ⟨h, hholds, hfirst⟩ -
      exact ⟨h.sweep now, hholds.expireDueProbes, hfirst⟩
    · rintro p e now - - s t m b n ⟨h, hholds, hfirst⟩ hb
      exact ⟨h.load t hb, hholds.loadSnapshot h.indexed t hb, hfirst⟩
  obtain ⟨hlast, ⟨stored, hstored, -⟩, hfirst⟩ := hall
  have hshown := hlast.armed.shown id (by rw [JsMap.has, hstored]; rfl)
  rw [hfirst] at hshown
  exact Option.bind_eq_some_iff.mp hshown

end FirstArmed

/-! ### Re-arming -/

namespace Sample

def firstTs : JsString := js "1970-01-01T00:00:01.000Z"

def secondTs : JsString := js "1970-01-01T00:00:02.000Z"

/-- A status of the first probe at some time. -/
def statusAt (status : ProbeStatusName) (ts : JsString) : ProbeEvent :=
  ⟨firstId, none, ts, .status status none {}⟩

theorem statusAt_parsed {status : ProbeStatusName} {ts : JsString}
    (hts : Protocol.timestampSchema ts = some ts) :
    Protocol.probeEventSchema (statusAt status ts) = some (statusAt status ts) := by
  have hid : Protocol.probeIdSchema firstId = some firstId := by decide
  exact Protocol.probeEventSchema_self.mpr
    ⟨hid, rfl, hts, Protocol.eventBodySchema_status_self.mpr ⟨rfl, rfl⟩⟩

theorem ts_parsed : Protocol.timestampSchema firstTs = some firstTs ∧
    Protocol.timestampSchema secondTs = some secondTs := by
  decide

def unarmed : History FirstArmed :=
  History.next config (FirstArmed.remember config) { memory := fun _ => none }
    (.request 0 scope (.createProbe (draw '1') (counter 1)))

/-- The batch of one status at a time. -/
def report (status : ProbeStatusName) (ts : JsString) : ProcessEvent :=
  .request 2000 scope (.ingest (batch (statusAt status ts)))

/-- The probe was armed. -/
def armedOnce : History FirstArmed :=
  History.next config (FirstArmed.remember config) unarmed (report .armed firstTs)

theorem report_valid (status : ProbeStatusName) {ts : JsString}
    (hts : Protocol.timestampSchema ts = some ts) : Process.Valid (report status ts) :=
  batch_valid (statusAt_parsed hts)

theorem armedOnce_memory : armedOnce.memory firstId = some firstTs := by decide

theorem armedOnce_reached :
    Reached (History.next config (FirstArmed.remember config)) (FirstArmed.Steady config)
      { memory := fun _ => none } armedOnce ∧ Holds scope firstId armedOnce.state := by
  constructor
  · refine Reached.step _ (Reached.step _ .init ⟨?_, ?_⟩) ⟨report_valid _ ts_parsed.1, ?_⟩
    · exact counter_valid 1 (List.mem_cons_self ..)
    · exact fun n _ k status hk => by cases hk
    · rintro - e he -
      rw [List.mem_singleton.mp he]
      exact armedOnce_memory
  · have hfound : (armedOnce.state.probes.get? firstId).any (fun stored => stored.scope = scope) = true := by
      decide
    obtain ⟨stored, hstored, hown⟩ := (Option.any_eq_true _ _).mp hfound
    exact ⟨stored, hstored, of_decide_eq_true hown⟩

theorem state_report (status : ProbeStatusName) (ts : JsString) (p : History FirstArmed) :
    (History.next config (FirstArmed.remember config) p (report status ts)).state
      = (p.state.ingest config 2000 (batch (statusAt status ts)) scope).1 := rfl

/-- A probe that is suspended was armed when it was armed. -/
theorem armedAt_suspended :
    ∃ status, (History.next config (FirstArmed.remember config) ⟨armedOnce.state, armedOnce.memory, []⟩
      (report .suspended secondTs)).state.statuses.get? firstId = some status ∧
        status.armedAt = some firstTs := by
  refine FirstArmed.armedAt_stable armedOnce_reached.1 armedOnce_reached.2 armedOnce_memory
    (Reached.step _ .init ⟨⟨report_valid _ ts_parsed.2, ?_⟩, nofun⟩)
  rintro - e he harmed
  rw [List.mem_singleton.mp he] at harmed
  cases harmed

/-- A probe that is armed again was armed later. -/
theorem armedAt_moved :
    ∃ p q ts, Reached (History.next config (FirstArmed.remember config))
        (fun _ e => Process.Valid e) { memory := fun _ => none } p ∧
      Holds scope firstId p.state ∧ p.memory firstId = some ts ∧
      Reached (History.next config (FirstArmed.remember config))
        (fun _ e => Process.Valid e ∧ Process.Keeps scope firstId e) ⟨p.state, p.memory, []⟩ q ∧
      ¬ ∃ status, q.state.statuses.get? firstId = some status ∧ status.armedAt = some ts := by
  have hmoved : ((armedOnce.state.ingest config 2000 (batch (statusAt .armed secondTs)) scope).1.statuses.get?
      firstId).any (fun status => status.armedAt = some secondTs) = true := by
    decide
  refine ⟨armedOnce, _, firstTs, armedOnce_reached.1.mono fun p e h => ?_, armedOnce_reached.2,
    armedOnce_memory, Reached.step (report .armed secondTs) .init ⟨report_valid _ ts_parsed.2, nofun⟩, ?_⟩
  · cases e with
    | request now scope r => exact h.1
    | _ => trivial
  · rw [state_report]
    rintro ⟨status, hstatus, hts⟩
    rw [hstatus, Option.any_some, decide_eq_true_eq, hts] at hmoved
    exact absurd hmoved (by decide)

end Sample
