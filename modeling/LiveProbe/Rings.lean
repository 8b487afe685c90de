/-
LiveProbe/Rings.lean

What the rings of a broker hold.

A batch of events is checked as a whole before any of it is stored, so a batch
that is refused leaves the rings alone.  The events of a batch that is accepted
are pushed one by one, and a push is what keeps a ring at the last events of all
those that were ever pushed (`pushEvent_lastEvents`).

A `Chronicle` is a process with a record of these: what `appendEvent` was ever
called with for a probe since it entered, whatever became of it in the ring.
-/
import LiveProbe.Process
import LiveProbe.View

open JsString Broker

/-! ### Rings -/

section

variable {cfg : Config}

/-- The events of one probe. -/
def ofProbe (id : JsString) (l : List ProbeEvent) : List ProbeEvent := l.filter fun e => e.probeId = id

theorem ofProbe_append (id : JsString) (l l' : List ProbeEvent) : ofProbe id (l ++ l') = ofProbe id l ++ ofProbe id l' :=
  List.filter_append ..

theorem ofProbe_cons (id : JsString) (e : ProbeEvent) (l : List ProbeEvent) :
    ofProbe id (e :: l) = if e.probeId = id then e :: ofProbe id l else ofProbe id l := by
  rw [ofProbe, List.filter_cons]
  simp only [decide_eq_true_eq, ofProbe]

namespace BrokerState

/-- The last events of a list and one more. -/
theorem pushEvent_lastEvents (l : List ProbeEvent) (e : ProbeEvent) :
    pushEvent cfg (lastEvents cfg l) e = lastEvents cfg (l ++ [e]) := by
  have hpushed : lastEvents cfg l ++ [e] = (l ++ [e]).drop (l.length - cfg.ringCapacity) := by
    rw [lastEvents, List.drop_append_of_le_length (Nat.sub_le _ _)]
  rw [pushEvent, hpushed, List.drop_drop, lastEvents]
  congr 1
  have := cfg.ringCapacity_pos
  simp only [List.length_drop, List.length_append, List.length_singleton]
  omega

/-- A ring after events are pushed. -/
def pushEvents (cfg : Config) (ring new : List ProbeEvent) : List ProbeEvent := new.foldl (pushEvent cfg) ring

theorem pushEvents_append (ring l l' : List ProbeEvent) :
    pushEvents cfg ring (l ++ l') = pushEvents cfg (pushEvents cfg ring l) l' :=
  List.foldl_append ..

theorem pushEvents_lastEvents (l new : List ProbeEvent) :
    pushEvents cfg (lastEvents cfg l) new = lastEvents cfg (l ++ new) := by
  induction new generalizing l with
  | nil =>
    rw [List.append_nil]
    rfl
  | cons e new ih =>
    rw [pushEvents, List.foldl_cons, pushEvent_lastEvents]
    show pushEvents cfg (lastEvents cfg (l ++ [e])) new = _
    rw [ih, List.append_assoc, List.singleton_append]

theorem lastEvents_nil : lastEvents cfg [] = [] := List.drop_nil

theorem lastEvents_map (f : ProbeEvent → ProbeEvent) (l : List ProbeEvent) :
    lastEvents cfg (l.map f) = (lastEvents cfg l).map f := by
  rw [lastEvents, List.length_map, lastEvents, List.map_drop]

/-- The retained events of a probe. -/
def ring (s : BrokerState) (id : JsString) : List ProbeEvent := (s.events.get? id).getD []

variable {now : ℕ} {scope : ResourceScope} {s t : BrokerState} {id : JsString} {new : List ProbeEvent}

theorem ring_congr (h : t.events = s.events) (id : JsString) : t.ring id = s.ring id := by
  rw [ring, h, ring]

theorem ring_appendEvent (e : ProbeEvent) :
    (s.appendEvent cfg e).ring id = if e.probeId = id then pushEvent cfg (s.ring id) e else s.ring id := by
  show ((s.events.set e.probeId _).get? id).getD [] = _
  rw [JsMap.get?_set]
  by_cases h : e.probeId = id
  · rw [if_pos h.symm, if_pos h, ← h]
    rfl
  · rw [if_neg (Ne.symm h), if_neg h]
    rfl

/-- A loop that appends its events and leaves the rings alone otherwise. -/
theorem ring_foldl {store : BrokerState → ProbeEvent → BrokerState}
    (hstore : ∀ s e, (store s e).events = (s.appendEvent cfg e).events) (l : List ProbeEvent) (s : BrokerState) :
    (l.foldl store s).ring id = pushEvents cfg (s.ring id) (ofProbe id l) := by
  induction l generalizing s with
  | nil => rfl
  | cons e l ih =>
    rw [List.foldl_cons, ih, ring_congr (hstore s e), ring_appendEvent, ofProbe_cons]
    split <;> rfl

/-! ### Expiry -/

/-- What `expireDueProbes` appends. -/
def expiredEvents (now : ℕ) (s : BrokerState) : List ProbeEvent :=
  (s.probes.entries.filter fun e => e.2.due now).map fun e => expiredEvent now e.2.probe.id

theorem ring_expireProbe (e : JsString × StoredProbe) :
    (s.expireProbe cfg now e).ring id =
      if e.2.due now then pushEvents cfg (s.ring id) (ofProbe id [expiredEvent now e.2.probe.id]) else s.ring id := by
  rw [expireProbe]
  split
  · show (BrokerState.appendEvent cfg (expiredEvent now e.2.probe.id) _).ring id = _
    rw [ring_appendEvent, ofProbe_cons]
    split <;> rfl
  · rfl

theorem ring_expireDueProbes (s : BrokerState) (id : JsString) :
    (s.expireDueProbes cfg now).ring id = pushEvents cfg (s.ring id) (ofProbe id (s.expiredEvents now)) := by
  rw [expireDueProbes, expiredEvents]
  generalize s.probes.entries = l
  induction l generalizing s with
  | nil => rfl
  | cons e l ih =>
    rw [List.foldl_cons, ih, ring_expireProbe, List.filter_cons]
    split
    · rw [List.map_cons, ← pushEvents_append, ← ofProbe_append]
      rfl
    · rfl

/-! ### Batches -/

theorem events_ingestEvent (s : BrokerState) (e : ProbeEvent) :
    (s.ingestEvent cfg e).events = (s.appendEvent cfg e).events := by
  rw [ingestEvent]
  split <;> rfl

theorem events_deriveNativeLogicalStatus (id : JsString) (s : BrokerState) :
    (s.deriveNativeLogicalStatus id scope).events = s.events := by
  rw [deriveNativeLogicalStatus]
  repeat' split
  all_goals rfl

theorem events_ingestNativeEvent (input : NativeIngestEnvelope) (s : BrokerState) (e : ProbeEvent) :
    (s.ingestNativeEvent cfg scope input e).events = (s.appendEvent cfg e).events := by
  rw [ingestNativeEvent]
  split
  · rfl
  · rw [recordNativeStatus]
    split
    · rfl
    · rw [events_deriveNativeLogicalStatus]

/-- A batch that fails a check leaves what the expiry leaves. -/
theorem ingest_error {input : IngestInput} {e : BrokerError} (h : (s.ingest cfg now input scope).2 = .error e) :
    (s.ingest cfg now input scope).1 = s.expireDueProbes cfg now := by
  rw [ingest] at h ⊢
  split
  · rfl
  · next hok =>
    simp only [hok] at h
    cases h

theorem ingest_ok {input : IngestInput} {n : ℕ} (h : (s.ingest cfg now input scope).2 = .ok n) :
    n = input.events.length ∧ ∀ id, (s.ingest cfg now input scope).1.ring id =
      pushEvents cfg ((s.expireDueProbes cfg now).ring id) (ofProbe id input.events) := by
  rw [ingest] at h ⊢
  split
  · next hfail =>
    simp only [hfail] at h
    cases h
  · next hok =>
    simp only [hok] at h
    exact ⟨(Except.ok.inj h).symm, fun id => ring_foldl events_ingestEvent _ _⟩

theorem events_touchNativeService (input : NativeIngestEnvelope) (s : BrokerState) :
    (s.touchNativeService now scope input).events = s.events := by
  rw [touchNativeService]
  split <;> rfl

/-- What a native batch that is accepted brings: all but the events of probes that are gone. -/
def acceptedEvents (s : BrokerState) (input : NativeIngestEnvelope) : List ProbeEvent :=
  input.events.filter fun e => s.probes.has e.probeId

theorem acceptNativeEvents_eq_filter {input : NativeIngestEnvelope} {l accepted : List ProbeEvent}
    (h : s.acceptNativeEvents input scope l = .ok accepted) : accepted = l.filter fun e => s.probes.has e.probeId := by
  induction l generalizing accepted with
  | nil => exact (Except.ok.inj h).symm
  | cons e l ih =>
    rw [acceptNativeEvents] at h
    rw [List.filter_cons]
    rcases hstored : s.probes.get? e.probeId with - | stored
    · simp only [hstored] at h
      split at h
      · rw [JsMap.has, hstored]
        exact ih h
      · cases h
    · simp only [hstored] at h
      rw [JsMap.has, hstored]
      split at h
      · cases h
      · rcases hrest : s.acceptNativeEvents input scope l with e' | rest
        · rw [hrest] at h
          cases h
        · rw [hrest] at h
          rw [← ih hrest]
          exact (Except.ok.inj h).symm

theorem ingestNativeChecked_error {input : NativeIngestEnvelope} {e : BrokerError}
    (h : (s.ingestNativeChecked cfg now input scope).2 = .error e) :
    ∃ recentlyRemovedProbes, (s.ingestNativeChecked cfg now input scope).1 = { s with recentlyRemovedProbes } := by
  rw [ingestNativeChecked] at h ⊢
  split
  · next htarget =>
    rw [if_pos htarget] at h
    dsimp only at h ⊢
    split
    · exact ⟨_, rfl⟩
    · next hok =>
      simp only [hok] at h
      cases h
  · exact ⟨_, rfl⟩

theorem ingestNativeChecked_ok {input : NativeIngestEnvelope} {n : ℕ}
    (h : (s.ingestNativeChecked cfg now input scope).2 = .ok n) :
    n = (s.acceptedEvents input).length ∧ ∀ id, (s.ingestNativeChecked cfg now input scope).1.ring id =
      pushEvents cfg (s.ring id) (ofProbe id (s.acceptedEvents input)) := by
  rw [ingestNativeChecked] at h ⊢
  split
  · next htarget =>
    rw [if_pos htarget] at h
    dsimp only at h ⊢
    split
    · next hfail =>
      simp only [hfail] at h
      cases h
    · next accepted hok =>
      simp only [hok] at h
      have haccepted := acceptNativeEvents_eq_filter hok
      obtain rfl : accepted = s.acceptedEvents input := haccepted
      refine ⟨(Except.ok.inj h).symm, fun id => ?_⟩
      rw [ring_congr (events_touchNativeService input _), ring_foldl (events_ingestNativeEvent input)]
      split <;> rfl
  · next htarget =>
    rw [if_neg htarget] at h
    cases h

/-- A native batch that is refused touches two records of the bookkeeping. -/
theorem ingestNative_error {input : NativeIngestEnvelope} {e : BrokerError}
    (h : (s.ingestNative cfg now input scope).2 = .error e) :
    ∃ nativeIngestHealth recentlyRemovedProbes, (s.ingestNative cfg now input scope).1 =
      { s with nativeIngestHealth, recentlyRemovedProbes } := by
  rcases hc : s.ingestNativeChecked cfg now input scope with ⟨t, failure | n⟩
  · obtain ⟨removed, rfl⟩ : ∃ removed, t = { s with recentlyRemovedProbes := removed } := by
      have := ingestNativeChecked_error (congrArg Prod.snd hc)
      rwa [hc] at this
    rw [ingestNative, hc]
    cases failure with
    | http statusCode code message => exact ⟨_, removed, rfl⟩
    | invalid => exact ⟨_, removed, rfl⟩
    | failure message => exact ⟨_, removed, rfl⟩
  · rw [ingestNative, hc] at h
    cases h

theorem ingestNative_ok {input : NativeIngestEnvelope} {n : ℕ} (h : (s.ingestNative cfg now input scope).2 = .ok n) :
    n = (s.acceptedEvents input).length ∧ ∀ id, (s.ingestNative cfg now input scope).1.ring id =
      pushEvents cfg (s.ring id) (ofProbe id (s.acceptedEvents input)) := by
  rcases hc : s.ingestNativeChecked cfg now input scope with ⟨t, failure | m⟩
  · rw [ingestNative, hc] at h
    cases failure <;> cases h
  · have hstored := ingestNativeChecked_ok (congrArg Prod.snd hc)
    rw [ingestNative, hc] at h ⊢
    rw [hc] at hstored
    obtain rfl := Except.ok.inj h
    exact hstored

/-! ### Requests that append nothing -/

theorem events_refreshServiceCapabilities (serviceId : JsString) (s : BrokerState) :
    (s.refreshServiceCapabilities now scope serviceId).events = s.events := by
  rw [refreshServiceCapabilities]
  split <;> rfl

theorem events_sourceMapStatus (serviceId commitSha uploaderId : JsString) :
    (s.sourceMapStatus now serviceId commitSha uploaderId scope).1.events = s.events := by
  have hclear : ∀ key, (s.clearForeignMaps now key uploaderId).events = s.events := by
    intro key
    rw [clearForeignMaps]
    repeat' split
    all_goals rfl
  rw [sourceMapStatus]
  split
  · rfl
  · split
    · exact hclear _
    · rfl

theorem events_uploadSourceMap (input : SourceMapUpload) :
    (s.uploadSourceMap cfg now input scope).1.events = s.events := by
  rw [uploadSourceMap]
  split
  · rfl
  · next ht =>
    obtain ⟨-, rfl⟩ := assertSourceMapUploader_eq_ok ht
    split <;> rfl

theorem events_completeSourceMaps (serviceId commitSha uploaderId : JsString) :
    (s.completeSourceMaps cfg now serviceId commitSha uploaderId scope).1.events = s.events := by
  have hdrop : ∀ (keys : List JsString) (s : BrokerState), (s.dropSourceMaps keys).events = s.events := by
    intro keys
    induction keys with
    | nil => exact fun _ => rfl
    | cons key keys ih => exact fun s => ih _
  rw [completeSourceMaps]
  split
  · rfl
  · next ht =>
    obtain ⟨-, rfl⟩ := assertSourceMapUploader_eq_ok ht
    exact hdrop _ _

theorem events_registerNativeAgent (input : NativeAgentRegistration) :
    (s.registerNativeAgent now input scope).1.events = s.events := by
  rw [registerNativeAgent]
  split <;> rfl

theorem events_setInstances (agent : NativeAgentRecord) (agentId : JsString) (instances : List NativeInstance)
    (s : BrokerState) : (s.setInstances scope agent agentId instances).1.events = s.events := by
  induction instances generalizing s with
  | nil => rfl
  | cons i rest ih =>
    rw [setInstances]
    split
    · rfl
    · exact ih _

theorem events_replaceNativeInstances (agentId : JsString) (instances : List NativeInstance) (allowed : List JsString) :
    (s.replaceNativeInstances now agentId instances scope allowed).1.events = s.events := by
  rw [replaceNativeInstances]
  split
  · rfl
  · next agent _ =>
    split
    · rfl
    · have hset := @events_setInstances scope agent agentId instances
        (s.dropInstances scope agentId (instances.map (·.instanceId)))
      dsimp only
      split
      · next ht =>
        rw [ht] at hset
        exact hset
      · next ht =>
        rw [ht] at hset
        exact hset

theorem events_listServices : (s.listServices cfg now scope).1.events = s.events := by
  rw [listServices]
  dsimp only
  generalize s.scopeServices scope = services
  induction services generalizing s with
  | nil => rfl
  | cons service services ih => exact ih.trans (events_refreshServiceCapabilities service.serviceId s)

/-- A new probe has an empty ring, as it had before it was there. -/
theorem ring_createProbe (hgone : ∀ id, s.probes.has id = false → s.ring id = []) (draws : ℕ → JsString)
    (input : CreateProbeInput) (id : JsString) :
    (s.createProbe cfg now draws input scope).1.ring id = s.ring id := by
  have hring : (s.refreshServiceCapabilities now scope input.serviceId).ring id = s.ring id :=
    ring_congr (events_refreshServiceCapabilities _ s) id
  have hprobes : (s.refreshServiceCapabilities now scope input.serviceId).probes = s.probes := by
    rw [refreshServiceCapabilities]
    split <;> rfl
  rw [createProbe]
  split
  · rfl
  · dsimp only
    generalize s.refreshServiceCapabilities now scope input.serviceId = t at hring hprobes
    split
    · exact hring
    · split
      · exact hring
      · next drawn hdrawn =>
        split
        · split
          · exact hring
          · next probe hparsed =>
            show ((t.events.set probe.id []).get? id).getD [] = _
            rw [JsMap.get?_set]
            split
            · next hid =>
              rw [hid, (newDefinition_parsed hparsed).1, hgone drawn]
              · rfl
              · rw [← hprobes]
                exact drawProbeId_fresh hdrawn
            · exact hring
        · exact hring

theorem ring_deleteProbe {deleted : JsString} (hid : (s.deleteProbe now deleted scope).1.probes.has id = true) :
    (s.deleteProbe now deleted scope).1.ring id = s.ring id := by
  have hremove : ∀ t : BrokerState, t.events = s.events → (t.removeProbe now deleted).probes.has id = true →
      (t.removeProbe now deleted).ring id = s.ring id := by
    intro t ht hid
    have hne : id ≠ deleted := by
      rintro rfl
      exact absurd hid (by simp [removeProbe, JsMap.has])
    show ((t.events.delete deleted).get? id).getD [] = _
    rw [JsMap.get?_delete_of_ne hne, ht]
    rfl
  rw [deleteProbe] at hid ⊢
  split
  · rfl
  · next stored hstored =>
    simp only [hstored] at hid
    split
    · next hown =>
      rw [if_pos hown] at hid
      split
      · next hexpired =>
        rw [if_pos hexpired] at hid
        exact hremove s rfl hid
      · next hlive =>
        rw [if_neg hlive] at hid
        exact hremove (s.incrementServiceVersion stored.probe.serviceId stored.scope) rfl hid
    · rfl

/-! ### Requests -/

/-- What a request has appended, to whichever probe. -/
def appendedBy (cfg : Config) (now : ℕ) (scope : ResourceScope) (s : BrokerState) : Request → List ProbeEvent
  | .listProbes _ | .getProbe _ | .getEvents _ | .getStatus _ | .pollProbes .. => s.expiredEvents now
  | .nativeAssignments agentId _ _ =>
    if s.nativeAgents.has (nativeAgentKey scope agentId) then s.expiredEvents now else []
  | .ingest input =>
    s.expiredEvents now ++
      match (s.ingest cfg now input scope).2 with
      | .ok _ => input.events
      | .error _ => []
  | .ingestNative input =>
    match (s.ingestNative cfg now input scope).2 with
    | .ok _ => s.acceptedEvents input
    | .error _ => []
  | _ => []

/-- What a request appends is pushed onto the rings that are there afterwards. -/
theorem ring_handle (hgone : ∀ id, s.probes.has id = false → s.ring id = []) (r : Request)
    (hid : (s.handle cfg now scope r).1.probes.has id = true) :
    (s.handle cfg now scope r).1.ring id =
      pushEvents cfg (s.ring id) (ofProbe id (s.appendedBy cfg now scope r)) := by
  cases r with
  | createProbe draws input => exact ring_createProbe hgone draws input id
  | deleteProbe deleted => exact ring_deleteProbe hid
  | listProbes | getProbe | getEvents | getStatus => exact ring_expireDueProbes s id
  | pollProbes => exact ring_expireDueProbes s id
  | sourceMapStatus serviceId commitSha uploaderId =>
    exact ring_congr (events_sourceMapStatus serviceId commitSha uploaderId) id
  | uploadSourceMap input => exact ring_congr (events_uploadSourceMap input) id
  | completeSourceMaps serviceId commitSha uploaderId =>
    exact ring_congr (events_completeSourceMaps serviceId commitSha uploaderId) id
  | getSourceMapSet => rfl
  | ingest input =>
    rw [appendedBy, ofProbe_append, pushEvents_append, ← ring_expireDueProbes]
    show (s.ingest cfg now input scope).1.ring id = _
    split
    · next hok => exact (ingest_ok hok).2 id
    · next herror =>
      rw [ingest_error herror]
      rfl
  | registerNativeAgent input => exact ring_congr (events_registerNativeAgent input) id
  | replaceNativeInstances agentId instances allowed =>
    exact ring_congr (events_replaceNativeInstances agentId instances allowed) id
  | nativeAssignments agentId since allowed =>
    rw [appendedBy]
    show (s.nativeAssignments cfg now agentId since scope allowed).1.ring id = _
    rw [nativeAssignments]
    split
    · exact ring_expireDueProbes s id
    · rfl
  | ingestNative input =>
    rw [appendedBy]
    show (s.ingestNative cfg now input scope).1.ring id = _
    split
    · next hok => exact (ingestNative_ok hok).2 id
    · next herror =>
      obtain ⟨health, removed, hstate⟩ := ingestNative_error herror
      rw [hstate]
      rfl
  | listServices => exact ring_congr (@events_listServices cfg now scope s) id

end BrokerState

end

/-! ### Chronicles -/

/-- A process and, for each probe, all that was appended since it entered. -/
structure Chronicle where
  state : BrokerState := {}
  appended : JsString → List ProbeEvent := fun _ => []
  saved : List (BrokerSnapshot × (JsString → List ProbeEvent)) := []

namespace Chronicle

open BrokerState

variable {cfg : Config}

/-- More is appended; the record of a probe ends when the probe leaves. -/
def extend (appended : JsString → List ProbeEvent) (new : List ProbeEvent) (s : BrokerState) (id : JsString) :
    List ProbeEvent :=
  if s.probes.has id then appended id ++ ofProbe id new else []

/-- A snapshot that is loaded brings back the record it was saved with, each event as its schema reads it;
what is due expires. -/
def reload (cfg : Config) (now : ℕ) (t : BrokerState) (b : BrokerSnapshot) (appended : JsString → List ProbeEvent) :
    BrokerState × (JsString → List ProbeEvent) :=
  ((t.loadSnapshot cfg now b).1,
    extend (fun id => (appended id).map readEvent) ((t.refill cfg b).expiredEvents now) (t.loadSnapshot cfg now b).1)

def next (cfg : Config) (c : Chronicle) : ProcessEvent → Chronicle
  | .request now scope r =>
    { c with
      state := (c.state.handle cfg now scope r).1
      appended := extend c.appended (c.state.appendedBy cfg now scope r) (c.state.handle cfg now scope r).1 }
  | .sweep now =>
    { c with
      state := c.state.expireDueProbes cfg now
      appended := extend c.appended (c.state.expiredEvents now) (c.state.expireDueProbes cfg now) }
  | .save now => { c with saved := (c.state.snapshot now).toList.map (·, c.appended) ++ c.saved }
  | .load now index =>
    match c.saved[index]? with
    | none => c
    | some (b, appended) =>
      { c with state := (reload cfg now c.state b appended).1, appended := (reload cfg now c.state b appended).2 }
  | .restart now index =>
    match c.saved[index]? with
    | none => c
    | some (b, appended) =>
      { c with state := (reload cfg now {} b appended).1, appended := (reload cfg now {} b appended).2 }

/-- The process of a chronicle. -/
def process (c : Chronicle) : Process := { state := c.state, saved := c.saved.map Prod.fst }

/-- The rings are the ends of the records. -/
def Kept (cfg : Config) (s : BrokerState) (appended : JsString → List ProbeEvent) : Prop :=
  ∀ id, s.ring id = lastEvents cfg (appended id)

variable {now : ℕ} {s t : BrokerState} {appended : JsString → List ProbeEvent} {new : List ProbeEvent}

/-- The record has no say in what the process does. -/
theorem process_next (c : Chronicle) (e : ProcessEvent) : (next cfg c e).process = Process.next cfg c.process e := by
  cases e with
  | request now scope r => rfl
  | sweep now => rfl
  | save now =>
    simp only [next, Process.next, process, List.map_append, List.map_map]
    exact congrArg (fun l => Process.mk c.state (l ++ _)) (List.map_id _)
  | load now index =>
    simp only [next, Process.next, process, List.getElem?_map]
    rcases c.saved[index]? with - | ⟨b, m⟩ <;> rfl
  | restart now index =>
    simp only [next, Process.next, process, List.getElem?_map]
    rcases c.saved[index]? with - | ⟨b, m⟩ <;> rfl

theorem ring_gone {L : Limits} (h : Records cfg L s) {id : JsString} (hid : s.probes.has id = false) : s.ring id = [] := by
  rcases hring : s.events.get? id with - | ring
  · rw [BrokerState.ring, hring]
    rfl
  · have hhas := h.known id (Or.inl (by rw [JsMap.has, hring]; rfl))
    rw [hid] at hhas
    cases hhas

theorem Kept.extend {L : Limits} (h : Kept cfg s appended) (ht : Records cfg L t)
    (hpushed : ∀ id, t.probes.has id = true → t.ring id = pushEvents cfg (s.ring id) (ofProbe id new)) :
    Kept cfg t (extend appended new t) := by
  intro id
  rw [Chronicle.extend]
  split
  · next hid => rw [hpushed id hid, h id, pushEvents_lastEvents]
  · next hid =>
    rw [ring_gone ht (Bool.eq_false_of_not_eq_true hid), lastEvents_nil]

/-- A reloaded ring is the end of the reloaded record. -/
theorem Kept.refill {L : Limits} {n : ℕ} {b : BrokerSnapshot} (h : Kept cfg s appended) (hr : Records cfg L s)
    (hb : s.snapshot n = some b) (t : BrokerState) :
    Kept cfg (t.refill cfg b) fun id => (appended id).map readEvent := by
  intro id
  have hring : (t.refill cfg b).ring id = (s.ring id).map readEvent := by
    rw [BrokerState.ring, events_refill t hr hb, JsMap.get?_mapVals, BrokerState.ring]
    cases s.events.get? id <;> rfl
  rw [hring, h id, lastEvents_map]

/-- What holds of every state a chronicle reaches. -/
structure Sound (cfg : Config) (s : BrokerState) (appended : JsString → List ProbeEvent) : Prop where
  indexed : Indexed s
  records : Records cfg .schemas s
  kept : Kept cfg s appended

theorem Sound.init : Sound cfg {} fun _ => [] := ⟨.init, .init, fun _ => lastEvents_nil.symm⟩

theorem Sound.expireDueProbes (h : Sound cfg s appended) :
    Sound cfg (s.expireDueProbes cfg now) (extend appended (s.expiredEvents now) (s.expireDueProbes cfg now)) := by
  have hrecords : Records cfg .schemas (s.expireDueProbes cfg now) := h.records.expireDueProbes h.indexed trivial
  exact ⟨h.indexed.expireDueProbes, hrecords, h.kept.extend hrecords fun id _ => ring_expireDueProbes s id⟩

theorem Sound.request (h : Sound cfg s appended) {scope : ResourceScope} {r : Request} (hvalid : r.Valid) :
    Sound cfg (s.handle cfg now scope r).1
      (extend appended (s.appendedBy cfg now scope r) (s.handle cfg now scope r).1) := by
  have hrecords := h.records.handle h.indexed hvalid (Limits.schemas_admits now scope r)
  exact ⟨h.indexed.handle hvalid, hrecords,
    h.kept.extend hrecords fun id hid => ring_handle (fun id hid => ring_gone h.records hid) r hid⟩

theorem Sound.reload {n : ℕ} {b : BrokerSnapshot} (h : Sound cfg s appended) (hb : s.snapshot n = some b)
    (t : BrokerState) : Sound cfg (reload cfg now t b appended).1 (reload cfg now t b appended).2 := by
  have hindexed : Indexed (t.refill cfg b) := Indexed.refill (snapshotSchema_eq_some.mp hb)
  have hrefill : Sound cfg (t.refill cfg b) fun id => (appended id).map readEvent :=
    ⟨hindexed, h.records.refill t h.indexed hb, h.kept.refill h.records hb t⟩
  rw [Chronicle.reload, loadSnapshot_of_snapshot hb]
  exact hrefill.expireDueProbes

/-- **A chronicle is sound throughout.** -/
theorem sound {c : Chronicle} (h : Reached (next cfg) (fun _ e => Process.Valid e) {} c) :
    Sound cfg c.state c.appended := by
  refine (h.invariant (I := fun c => Sound cfg c.state c.appended ∧
    ∀ b ∈ c.saved, ∃ s n, Sound cfg s b.2 ∧ s.snapshot n = some b.1) ⟨.init, ?_⟩ fun c e ⟨hs, hb⟩ hvalid => ?_).1
  · exact fun b hmem => absurd hmem List.not_mem_nil
  cases e with
  | request now scope r => exact ⟨hs.request hvalid, hb⟩
  | sweep now => exact ⟨hs.expireDueProbes, hb⟩
  | save now =>
    refine ⟨hs, fun b hmem => ?_⟩
    rcases List.mem_append.mp hmem with hmem | hmem
    · obtain ⟨b', hb', rfl⟩ := List.mem_map.mp hmem
      exact ⟨c.state, now, hs, Option.mem_toList.mp hb'⟩
    · exact hb b hmem
  | load now index =>
    simp only [next]
    rcases hg : c.saved[index]? with - | ⟨b, m⟩
    · exact ⟨hs, hb⟩
    · obtain ⟨s, n, hI, hsnap⟩ := hb (b, m) (List.mem_of_getElem? hg)
      exact ⟨hI.reload hsnap c.state, hb⟩
  | restart now index =>
    simp only [next]
    rcases hg : c.saved[index]? with - | ⟨b, m⟩
    · exact ⟨hs, hb⟩
    · obtain ⟨s, n, hI, hsnap⟩ := hb (b, m) (List.mem_of_getElem? hg)
      exact ⟨hI.reload hsnap {}, hb⟩

end Chronicle

/-! ### All or nothing -/

namespace BrokerState

/-- **A batch is stored as a whole or not at all, and the rings are the ends of all that was
ever stored.** -/
theorem ingest_allOrNothing (cfg : Config) :
    (∀ (s : BrokerState) now input scope e, (s.ingest cfg now input scope).2 = .error e →
      (s.ingest cfg now input scope).1 = s.expireDueProbes cfg now) ∧
    (∀ (s : BrokerState) now input scope e, (s.ingestNative cfg now input scope).2 = .error e →
      ∃ nativeIngestHealth recentlyRemovedProbes, (s.ingestNative cfg now input scope).1 =
        { s with nativeIngestHealth, recentlyRemovedProbes }) ∧
    (∀ (s : BrokerState) now input scope n, (s.ingest cfg now input scope).2 = .ok n →
      n = input.events.length ∧ ∀ id, (s.ingest cfg now input scope).1.ring id =
        pushEvents cfg ((s.expireDueProbes cfg now).ring id) (ofProbe id input.events)) ∧
    (∀ (s : BrokerState) now input scope n, (s.ingestNative cfg now input scope).2 = .ok n →
      n = (s.acceptedEvents input).length ∧ ∀ id, (s.ingestNative cfg now input scope).1.ring id =
        pushEvents cfg (s.ring id) (ofProbe id (s.acceptedEvents input))) ∧
    ∀ c, Reached (Chronicle.next cfg) (fun _ e => Process.Valid e) {} c →
      ∀ id, c.state.ring id = lastEvents cfg (c.appended id) :=
  ⟨fun _ _ _ _ _ => ingest_error, fun _ _ _ _ _ => ingestNative_error, fun _ _ _ _ _ => ingest_ok,
    fun _ _ _ _ _ => ingestNative_ok, fun _ h => (Chronicle.sound h).kept⟩

end BrokerState

namespace Sample

/-- A hit of the first counter. -/
def hits : IngestInput where
  serviceId := js "api"
  sdk := .node
  agentId := none
  commitSha := js "abc1234"
  commitSource := none
  capabilities := none
  agentStatus := { state := .green }
  events := [{ probeId := draw '1' 0, probeVersion := none, ts := js "2026-01-01T00:00:00.000Z", body := .counter 1 }]

/-- The counter was created. -/
def chronicled : Chronicle := Chronicle.next config {} (.request 0 scope (.createProbe (draw '1') (counter 1)))

theorem hits_stored : ((created.state.ingest config 0 hits scope).1.ring (draw '1' 0)).length = 1 ∧
    (({} : BrokerState).ingest config 0 hits scope).1 = ({} : BrokerState).expireDueProbes config 0 ∧
    ∀ id, chronicled.state.ring id = BrokerState.lastEvents config (chronicled.appended id) := by
  obtain ⟨herror, -, hok, -, hkept⟩ := BrokerState.ingest_allOrNothing config
  have hstored : (created.state.ingest config 0 hits scope).2 = .ok 1 := by decide
  refine ⟨?_, herror _ _ _ _ _ rfl, hkept _ (Reached.init.step _ (counter_valid 1 List.mem_cons_self))⟩
  rw [(hok _ _ _ _ _ hstored).2]
  decide

end Sample
