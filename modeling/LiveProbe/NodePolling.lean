/-
LiveProbe/NodePolling.lean

A Node agent that polls its broker.

The poll carries the version of the last answer, the broker answers with the
active set or that the version is the same, and the agent hands the set to its
manager; requests and answers may be lost.  The version is taken over before the
manager has the set, but only one poll is under way at a time.  So between its
polls an agent wants exactly the set its version stands for: where the broker
has the same version, that is the active set (`agent_follows`).

As for the polls alone, this needs that no rejected mutation takes back a
version that a poll has shown.
-/
import LiveProbe.NodeLoop
import LiveProbe.ProbeReading
import LiveProbe.Rollback

open JsString Broker Protocol BrokerState

/-! ### The agent and its broker -/

/-- A broker, an agent, and the answer that is on its way. -/
structure PolledBroker where
  server : Server := {}
  agent : LiveProbe := {}
  reply : Option PollResponse := none

namespace PolledBroker

/-- Whose active set the agent asks for. -/
structure Subject where
  scope : ResourceScope
  serviceId : JsString
  commitSha : Option JsString

inductive Event
  /-- anything else at the broker -/
  | server (e : ServerEvent)
  /-- anything at the agent but the answer to its poll -/
  | agent (e : LiveProbe.Event)
  /-- the request of the poll is answered -/
  | served (now : ℕ)
  /-- the answer is read by the agent -/
  | delivered

/-- The answer of a request that is a poll. -/
def pollReply : Response → Option PollResponse
  | .poll (.ok r) => some r
  | _ => none

/-- `parsePollResponse` -/
def parsePollResponse (parseProbe : ProbeDefinition → Option NodeProbes.ProbeDefinition) :
    PollResponse → Option PollAnswer
  | .unchanged version => some ⟨version, none⟩
  | .full version probes => (probes.mapM parseProbe).map fun probes => ⟨version, some probes⟩

section

variable (cfg : Config) (lower : JsString → JsString) (config : PauseCapture.ManagerConfig) (maxLagMs : ℚ)
  (parseProbe : ProbeDefinition → Option NodeProbes.ProbeDefinition) (subject : Subject)

/-- The request of the poll. -/
def pollRequest (f : PolledBroker) : Request := .pollProbes subject.serviceId f.agent.version subject.commitSha

def next (f : PolledBroker) : Event → PolledBroker
  | .server e => { f with server := f.server.next cfg e }
  | .agent (.answered _) => f
  | .agent .failed => { f with agent := f.agent.next lower config maxLagMs .failed, reply := none }
  | .agent e => { f with agent := f.agent.next lower config maxLagMs e }
  | .served now =>
    if f.agent.polling = some .sent ∧ f.reply = none then
      { f with
        server := f.server.next cfg (.call now subject.scope (f.pollRequest subject))
        reply := pollReply (f.server.state.handle cfg now subject.scope (f.pollRequest subject)).2 }
    else f
  | .delivered =>
    match f.reply with
    | none => f
    | some r =>
      match parsePollResponse parseProbe r with
      | none => { f with agent := f.agent.next lower config maxLagMs .failed, reply := none }
      | some answer => { f with agent := f.agent.next lower config maxLagMs (.answered answer), reply := none }

/-- The requests have passed the schemas of their routes, and no rejection takes back what a poll has shown. -/
def Valid (f : PolledBroker) : Event → Prop
  | .server e => Server.Valid e ∧ Server.SafeRejection f.server e
  | .served _ => (f.pollRequest subject).Valid
  | _ => True

end

end PolledBroker

/-! ### What the manager wants -/

namespace NodeProbes

variable {lower : JsString → JsString} {config : PauseCapture.ManagerConfig} {s t : State} {probes : List ProbeDefinition}
  {r : ℕ}

/-- The events that can change what is wanted, or start a call for that. -/
def Event.wants : Event → Bool
  | .reconcile _ | .reconcileNext _ | .stop => true
  | _ => false

theorem next_desired (lower : JsString → JsString) (config : PauseCapture.ManagerConfig) (s : State) {e : Event}
    (he : e.wants = false) :
    (next lower config s e).desired = s.desired ∧ (next lower config s e).reconciles = s.reconciles := by
  by_cases hrests : e.rests = true
  · have h : s.Rests (next lower config s e) := .next s hrests
    exact ⟨h.desired, h.reconciles⟩
  · cases e with
    | ensureArmed probe resolution =>
      show (s.ensureArmed probe resolution).desired = _ ∧ (s.ensureArmed probe resolution).reconciles = _
      unfold State.ensureArmed
      split
      · exact ⟨rfl, rfl⟩
      · dsimp only
        split <;> exact ⟨rfl, rfl⟩
    | acquired a =>
      show (s.acquired a).desired = _ ∧ (s.acquired a).reconciles = _
      unfold State.acquired
      split
      · split
        · exact ⟨rfl, rfl⟩
        · split <;> exact ⟨rfl, rfl⟩
        · exact ⟨rfl, rfl⟩
      · exact ⟨rfl, rfl⟩
    | released a =>
      show (s.released a).desired = _ ∧ (s.released a).reconciles = _
      unfold State.released
      split <;> exact ⟨rfl, rfl⟩
    | reconcile | reconcileNext | stop => cases he
    | _ => exact absurd rfl hrests

/-- No call of `reconcile` is under way. -/
def State.Calm (s : State) : Prop := ∀ (r : ℕ) (job : Reconciling), s.reconciles[r]? = some job → job.finished = true

theorem State.Calm.reconcileNext (h : s.Calm) (r : ℕ) : s.reconcileNext r = s := by
  rcases s.reconcileNext_cases r with ⟨heq, -⟩ | ⟨_, _, _, _, hr, -⟩ | ⟨_, hr, -⟩
  · exact heq
  · cases h r _ hr
  · cases h r _ hr

/-- Where no call is under way, what is wanted stays until one begins or the manager stops. -/
theorem State.Calm.next (h : s.Calm) {e : Event} (he : LiveProbe.ownCall e = false) :
    (NodeProbes.next lower config s e).desired = s.desired ∧ (NodeProbes.next lower config s e).Calm := by
  rcases hwants : e.wants with - | -
  · obtain ⟨hdesired, hreconciles⟩ := next_desired lower config s hwants
    exact ⟨hdesired, fun r job hr => h r job (hreconciles ▸ hr)⟩
  · cases e with
    | reconcileNext r =>
      have heq : NodeProbes.next lower config s (.reconcileNext r) = s := h.reconcileNext r
      rw [heq]
      exact ⟨rfl, h⟩
    | reconcile | stop => cases he
    | _ => cases hwants

/-- The call `r` for `probes` is the only one under way; when it is over, they are wanted. -/
structure State.Turning (probes : List ProbeDefinition) (r : ℕ) (s : State) : Prop where
  job : ∃ rest finished, s.reconciles[r]? = some ⟨probes, rest, finished⟩ ∧
    (finished = true → ∀ id, s.desired.get? id = wanted probes id)
  others : ∀ (r' : ℕ) (job : Reconciling), r' ≠ r → s.reconciles[r']? = some job → job.finished = true

namespace State.Turning

theorem quiet (h : s.Turning probes r) (hdesired : t.desired = s.desired) (hreconciles : t.reconciles = s.reconciles) :
    t.Turning probes r := by
  obtain ⟨rest, finished, hjob, hwanted⟩ := h.job
  exact ⟨⟨rest, finished, hreconciles ▸ hjob, hdesired ▸ hwanted⟩, hreconciles ▸ h.others⟩

theorem reconcileNext (h : s.Turning probes r) (r' : ℕ) : (s.reconcileNext r').Turning probes r := by
  obtain ⟨rest, finished, hjob, hwanted⟩ := h.job
  have hset {t : State} {rest' : List (JsString × ℕ)} {finished' : Bool}
      (hreconciles : t.reconciles = (s.setReconciling r ⟨probes, rest', finished'⟩).reconciles)
      (hwanted' : finished' = true → ∀ id, t.desired.get? id = wanted probes id) : t.Turning probes r := by
    refine ⟨⟨rest', finished', hreconciles ▸ State.setReconciling_self hjob _, hwanted'⟩, fun r' job hr' h' => ?_⟩
    rw [hreconciles, State.setReconciling_of_ne hr'] at h'
    exact h.others r' job hr' h'
  have hown {probes' : List ProbeDefinition} {rest' : List (JsString × ℕ)}
      (h' : s.reconciles[r']? = some ⟨probes', rest', false⟩) : r' = r ∧ probes' = probes := by
    by_cases hr' : r' = r
    · subst hr'
      rw [hjob] at h'
      exact ⟨rfl, congrArg Reconciling.probes (Option.some.inj h').symm⟩
    · cases h.others r' _ hr' h'
  rcases s.reconcileNext_cases r' with ⟨heq, -⟩ | ⟨probes', id, o, rest', hr', hturn⟩ | ⟨probes', hr', heq⟩
  · rw [heq]
    exact h
  · obtain ⟨rfl, rfl⟩ := hown hr'
    rcases hturn with ⟨probe, -, -, heq⟩ | ⟨-, heq⟩
    · rw [heq]
      exact hset (State.Rests.uninstall _ o).reconciles fun h => by cases h
    · rw [heq]
      exact hset rfl fun h => by cases h
  · obtain ⟨rfl, rfl⟩ := hown hr'
    rw [heq]
    exact hset rfl fun _ id => State.wanted_eq probes' id

theorem next (h : s.Turning probes r) {e : Event} (he : LiveProbe.ownCall e = false) :
    (NodeProbes.next lower config s e).Turning probes r := by
  rcases hwants : e.wants with - | -
  · obtain ⟨hdesired, hreconciles⟩ := next_desired lower config s hwants
    exact h.quiet hdesired hreconciles
  · cases e with
    | reconcileNext r' => exact h.reconcileNext r'
    | reconcile | stop => cases he
    | _ => cases hwants

/-- A call begins. -/
theorem start (hcalm : s.Calm) (hstopped : s.stopped = false) (probes : List ProbeDefinition) :
    (s.reconcile probes).Turning probes s.reconciles.length := by
  unfold State.reconcile
  rw [hstopped]
  refine ⟨⟨s.installed.entries, false, List.getElem?_concat_length, fun h => by cases h⟩, fun r' job hr' h => ?_⟩
  have h : (s.reconciles ++ [⟨probes, s.installed.entries, false⟩])[r']? = some job := h
  have hlt : r' < s.reconciles.length := by
    have := (List.getElem?_eq_some_iff.mp h).1
    rw [List.length_append, List.length_singleton] at this
    omega
  rw [List.getElem?_append_left hlt] at h
  exact hcalm r' job h

/-- The call is over. -/
theorem finish (h : s.Turning probes r) (hfinished : LiveProbe.reconciled s r = true) :
    s.Calm ∧ ∀ id, s.desired.get? id = wanted probes id := by
  obtain ⟨rest, finished, hjob, hwanted⟩ := h.job
  rw [LiveProbe.reconciled, hjob] at hfinished
  have hfinished : finished = true := hfinished
  refine ⟨fun r' job h' => ?_, hwanted hfinished⟩
  by_cases hr' : r' = r
  · subst hr'
    rw [hjob] at h'
    cases h'
    exact hfinished
  · exact h.others r' job hr' h'

end State.Turning

end NodeProbes

/-! ### What the agent wants -/

namespace LiveProbe

variable {lower : JsString → JsString} {config : PauseCapture.ManagerConfig} {maxLagMs : ℚ} {a b : LiveProbe}
  {P Q : (JsString → Option NodeProbes.ProbeDefinition) → Prop}

theorem not_reconciling (h : a.polling = some .sent) (job : ℕ) : a.polling ≠ some (.reconciling job) := by
  intro hjob
  rw [h] at hjob
  cases hjob

/-- What the manager of an agent that has not stopped wants, or will once the call under way is over. -/
structure Wants (P : (JsString → Option NodeProbes.ProbeDefinition) → Prop) (a : LiveProbe) : Prop where
  calm : a.stopped = false → (∀ job, a.polling ≠ some (.reconciling job)) → a.manager.Calm ∧ P a.manager.desired.get?
  turning : a.stopped = false → ∀ job, a.polling = some (.reconciling job) →
    ∃ probes, P (NodeProbes.State.wanted probes) ∧ a.manager.Turning probes job

namespace Wants

theorem mono (h : a.Wants P) (hP : ∀ w, P w → Q w) : a.Wants Q where
  calm hrun hpolling := (h.calm hrun hpolling).imp_right (hP _)
  turning hrun job hjob := by
    obtain ⟨probes, hprobes, hturning⟩ := h.turning hrun job hjob
    exact ⟨probes, hP _ hprobes, hturning⟩

/-- What is wanted stays, and so does the call under way. -/
theorem of_manager (h : a.Wants P) (hstopped : b.stopped = a.stopped) (hpolling : b.polling = a.polling)
    (hcalm : a.manager.Calm → b.manager.Calm ∧ b.manager.desired = a.manager.desired)
    (hturning : ∀ probes job, a.manager.Turning probes job → b.manager.Turning probes job) : b.Wants P where
  calm hrun hidle := by
    obtain ⟨hquiet, hwants⟩ := h.calm (hstopped ▸ hrun) fun job => hpolling ▸ hidle job
    obtain ⟨hquiet', hdesired⟩ := hcalm hquiet
    exact ⟨hquiet', hdesired ▸ hwants⟩
  turning hrun job hjob := by
    obtain ⟨probes, hprobes, hjob'⟩ := h.turning (hstopped ▸ hrun) job (hpolling ▸ hjob)
    exact ⟨probes, hprobes, hturning probes job hjob'⟩

/-- A poll without a call of `reconcile`. -/
theorem of_idle (h : a.Wants P) (hidle : ∀ job, a.polling ≠ some (.reconciling job))
    (hidle' : ∀ job, b.polling ≠ some (.reconciling job)) (hstopped : b.stopped = false → a.stopped = false)
    (hmanager : b.manager = a.manager) : b.Wants P where
  calm hrun _ := hmanager ▸ h.calm (hstopped hrun) hidle
  turning _ job hjob := absurd hjob (hidle' job)

/-- An agent that has stopped. -/
theorem of_stopped (hstopped : a.stopped = true) : a.Wants P where
  calm hrun := by
    rw [hstopped] at hrun
    cases hrun
  turning hrun := by
    rw [hstopped] at hrun
    cases hrun

theorem manager (h : a.Wants P) (e : NodeProbes.Event) : (a.next lower config maxLagMs (.manager e)).Wants P := by
  unfold LiveProbe.next
  dsimp only
  split
  · exact h
  · rename_i hown
    have hown : ownCall e = false := Bool.eq_false_iff.mpr hown
    exact h.of_manager rfl rfl (fun hcalm => (hcalm.next hown).symm) fun _ _ hturning => hturning.next hown

/-- The monitor leaves what is wanted alone. -/
theorem quiet (h : a.Wants P) {e : NodeProbes.Event} (he : e.wants = false) (monitor : SafetyMonitor) :
    LiveProbe.Wants P { a with monitor, manager := NodeProbes.next lower config a.manager e } := by
  obtain ⟨hdesired, hreconciles⟩ := NodeProbes.next_desired lower config a.manager he
  exact h.of_manager rfl rfl (fun hcalm => ⟨fun r job hr => hcalm r job (hreconciles ▸ hr), hdesired⟩)
    fun _ _ hturning => hturning.quiet hdesired hreconciles

theorem polled (h : a.Wants P) : a.polled.Wants P := by
  unfold LiveProbe.polled
  split
  · rename_i job hjob
    split
    · rename_i hfinished
      refine ⟨fun hrun _ => ?_, fun _ _ hpolling => by cases hpolling⟩
      obtain ⟨probes, hprobes, hturning⟩ := h.turning hrun job hjob
      obtain ⟨hcalm, hwanted⟩ := hturning.finish hfinished
      have hsame : a.manager.desired.get? = NodeProbes.State.wanted probes := funext hwanted
      exact ⟨hcalm, hsame ▸ hprobes⟩
    · exact h
  · exact h

/-- Whatever is not an answer leaves what is wanted alone. -/
theorem next (h : a.Wants P) {e : Event} (he : ∀ answer, e ≠ .answered answer) :
    (a.next lower config maxLagMs e).Wants P := by
  cases e with
  | manager e => exact h.manager e
  | sampleNow p95Ms detail =>
    show (a.sampleNow lower config maxLagMs p95Ms detail).Wants P
    unfold LiveProbe.sampleNow
    split
    · exact h.quiet rfl _
    · exact h
  | cooled =>
    show (a.cooled lower config).Wants P
    unfold LiveProbe.cooled
    split
    · exact h
    · split
      · exact h.quiet rfl _
      · exact ⟨h.calm, h.turning⟩
  | poll =>
    unfold LiveProbe.next
    dsimp only
    split
    · exact h
    · rename_i hidle
      rw [Bool.or_eq_true, not_or] at hidle
      refine h.of_idle (fun job hjob => hidle.1 ?_) (fun job hjob => by cases hjob) id rfl
      rw [hjob]
      rfl
  | answered answer => exact absurd rfl (he answer)
  | failed =>
    unfold LiveProbe.next
    dsimp only
    split
    · rename_i hsent
      exact h.of_idle (not_reconciling hsent) (fun job hjob => by cases hjob) id rfl
    · exact h
  | polled => exact h.polled
  | stop =>
    unfold LiveProbe.next
    dsimp only
    split
    · exact h
    · exact of_stopped rfl
  | settled =>
    unfold LiveProbe.next
    dsimp only
    split
    · rename_i hidle
      exact of_stopped (Bool.and_eq_true_iff.mp hidle).1
    · exact h

/-- The probes are the same. -/
theorem unchanged (h : a.Wants P) (version : ℕ) : (a.answered lower config ⟨version, none⟩).Wants P := by
  unfold LiveProbe.answered
  split
  · exact h
  · rename_i hsent
    rw [not_not] at hsent
    split
    · exact h.of_idle (not_reconciling hsent) (fun job hjob => by cases hjob) id rfl
    · exact h.of_idle (not_reconciling hsent) (fun job hjob => by cases hjob) id rfl

/-- New probes. -/
theorem full (h : a.Wants P) (hkept : Kept lower config a) (hsent : a.polling = some .sent) (version : ℕ)
    {probes : List NodeProbes.ProbeDefinition} (hQ : Q (NodeProbes.State.wanted probes)) :
    (a.answered lower config ⟨version, some probes⟩).Wants Q := by
  unfold LiveProbe.answered
  rw [if_neg (not_not.mpr hsent)]
  split
  · rename_i hstopped
    exact of_stopped hstopped
  · rename_i hrun
    have hrun : a.stopped = false := Bool.eq_false_iff.mpr hrun
    have hworks : a.manager.stopped = false := by
      refine Bool.eq_false_iff.mpr fun hs => ?_
      rw [hkept.stopped hs] at hrun
      cases hrun
    dsimp only
    rw [hworks, if_neg Bool.false_ne_true]
    refine ⟨fun _ hidle => absurd rfl (hidle _), fun _ job hjob => ?_⟩
    cases hjob
    obtain ⟨hcalm, -⟩ := h.calm hrun (not_reconciling hsent)
    exact ⟨probes, hQ, NodeProbes.State.Turning.start hcalm hworks probes⟩

end Wants

end LiveProbe

/-! ### What the broker has shown -/

namespace Server

variable {cfg : Config} {v : Server}

/-- No answer is forgotten. -/
theorem polls_next {a : PollRecord} (h : a ∈ v.polls) (e : ServerEvent) : a ∈ (v.next cfg e).polls := by
  cases e with
  | call now scope r =>
    unfold next
    dsimp only
    split
    · exact h
    · exact List.mem_append_right _ h
  | start now task =>
    unfold next
    dsimp only
    split <;> exact h
  | persisted => exact h
  | rejected now =>
    unfold next
    dsimp only
    split <;> exact h

/-- Every view has grown from that of a fresh broker, and so has the view a rejection goes back to. -/
structure Grown (v : Server) : Prop where
  state : ∀ sc sv, ViewAdvances (view sc sv {}) (v.state.view sc sv)
  before : ∀ p ∈ v.pending, ∃ s, Indexed s ∧ (∃ n, s.snapshot n = some p.before) ∧
    ∀ sc sv, ViewAdvances (view sc sv {}) (s.view sc sv)

theorem Grown.init : Grown {} := ⟨fun _ _ => .refl _, fun _ h => by cases h⟩

theorem Grown.next (h : v.Grown) (hs : Sound cfg v) {e : ServerEvent} (hv : Valid e) : (v.next cfg e).Grown := by
  cases e with
  | call now scope r =>
    unfold Server.next
    dsimp only
    split
    · exact h
    · refine ⟨fun sc sv => (h.state sc sv).trans ?_, fun p hp => ?_⟩
      · have ha : ServiceAdvances sc sv v.state (v.state.handle cfg now scope r).1 := handle_advances hs.indexed hv
        exact ⟨ha.le, ha.content_eq⟩
      · obtain ⟨p₀, hp₀, rfl⟩ := Option.map_eq_some_iff.mp hp
        exact h.before p₀ hp₀
  | start now task =>
    unfold Server.next
    dsimp only
    split
    · rename_i before hnone hb
      refine ⟨fun sc sv => (h.state sc sv).trans ((task_spec cfg hs.indexed hv).2 sc sv).1, fun p hp => ?_⟩
      dsimp only at hp
      split at hp
      · obtain rfl := Option.some.inj hp
        exact ⟨v.state, hs.indexed, ⟨now, hb⟩, h.state⟩
      · cases hp
    · exact h
  | persisted => exact ⟨h.state, fun _ h => by cases h⟩
  | rejected now =>
    unfold Server.next
    dsimp only
    split
    · exact h
    · rename_i p hp
      obtain ⟨s, hindexed, ⟨n, hb⟩, hgrown⟩ := h.before p hp
      refine ⟨fun sc sv => ?_, fun _ h => by cases h⟩
      rw [view_rollback hindexed hb]
      exact (hgrown sc sv).trans (ServiceView.advances_expire _ _)

/-- At version 0 a service has no probes. -/
theorem Grown.located (h : v.Grown) {sc : ResourceScope} {sv : JsString} {commitSha : Option JsString}
    (hc : ∀ c ∈ commitSha, nul ∉ c) (hzero : v.state.serviceVersion sc sv = 0) :
    v.state.located cfg sv commitSha sc = .ok [] := by
  have hcontent := (h.state sc sv).content_eq hzero.symm
  rw [located_view hc, ← ServiceView.located_congr hcontent]
  rfl

end Server

namespace PolledBroker

variable {cfg : Config} {lower : JsString → JsString} {config : PauseCapture.ManagerConfig} {maxLagMs : ℚ}
  {parseProbe : ProbeDefinition → Option NodeProbes.ProbeDefinition} {subject : Subject} {f g : PolledBroker}

/-- The full answer to a poll of the agent. -/
def Shows (subject : Subject) (v : Server) (version : ℕ) (probes : List ProbeDefinition) : Prop :=
  ∃ a ∈ v.polls, a.scope = subject.scope ∧ a.serviceId = subject.serviceId ∧ a.commitSha = subject.commitSha ∧
    a.answer = .full version probes

/-- What a version stands for: no probes at the start, and then what was shown with it. -/
def Stands (parseProbe : ProbeDefinition → Option NodeProbes.ProbeDefinition) (subject : Subject) (v : Server)
    (version : ℕ) (w : JsString → Option NodeProbes.ProbeDefinition) : Prop :=
  version = 0 ∧ w = (fun _ => none) ∨
    ∃ shown probes, Shows subject v version shown ∧ shown.mapM parseProbe = some probes ∧ w = NodeProbes.State.wanted probes

/-- The answer on its way is one to the poll under way. -/
def Replies (subject : Subject) (f : PolledBroker) (r : PollResponse) : Prop :=
  f.agent.polling = some .sent ∧
    (r = .unchanged f.agent.version ∨ ∃ version probes, r = .full version probes ∧
      Shows subject f.server version probes)

structure Follows (cfg : Config) (lower : JsString → JsString) (config : PauseCapture.ManagerConfig)
    (parseProbe : ProbeDefinition → Option NodeProbes.ProbeDefinition) (subject : Subject) (f : PolledBroker) : Prop where
  server : Server.Sound cfg f.server
  grown : f.server.Grown
  kept : LiveProbe.Kept lower config f.agent
  replies : ∀ r ∈ f.reply, Replies subject f r
  wants : f.agent.Wants (Stands parseProbe subject f.server f.agent.version)

theorem Shows.next {v : Server} {version : ℕ} {probes : List ProbeDefinition} (h : Shows subject v version probes)
    (e : ServerEvent) : Shows subject (v.next cfg e) version probes := by
  obtain ⟨a, ha, hours⟩ := h
  exact ⟨a, Server.polls_next ha e, hours⟩

theorem Stands.next {v : Server} {version : ℕ} {w : JsString → Option NodeProbes.ProbeDefinition}
    (h : Stands parseProbe subject v version w) (e : ServerEvent) : Stands parseProbe subject (v.next cfg e) version w := by
  rcases h with h | ⟨shown, probes, hshown, hread, hw⟩
  · exact .inl h
  · exact .inr ⟨shown, probes, hshown.next e, hread, hw⟩

/-- Where nothing at the agent's poll changes, the answer on its way stays one to it. -/
theorem Replies.congr {r : PollResponse} (h : Replies subject f r) (hpolling : g.agent.polling = f.agent.polling)
    (hversion : g.agent.version = f.agent.version)
    (hshown : ∀ version probes, Shows subject f.server version probes → Shows subject g.server version probes) :
    Replies subject g r := by
  obtain ⟨hsent, hr⟩ := h
  refine ⟨hpolling.trans hsent, ?_⟩
  rcases hr with hr | ⟨version, probes, hr, hshows⟩
  · exact .inl (hversion ▸ hr)
  · exact .inr ⟨version, probes, hr, hshown version probes hshows⟩

/-- Only an answer changes the version, and only a failure ends a poll that waits for one. -/
theorem agent_poll (lower : JsString → JsString) (config : PauseCapture.ManagerConfig) (maxLagMs : ℚ) (a : LiveProbe)
    {e : LiveProbe.Event} (he : ∀ answer, e ≠ .answered answer) (hfailed : e ≠ .failed) :
    (a.next lower config maxLagMs e).version = a.version ∧
      (a.polling = some .sent → (a.next lower config maxLagMs e).polling = some .sent) := by
  cases e with
  | answered answer => exact absurd rfl (he answer)
  | failed => exact absurd rfl hfailed
  | manager e =>
    unfold LiveProbe.next
    dsimp only
    split <;> exact ⟨rfl, id⟩
  | sampleNow p95Ms detail =>
    show (a.sampleNow lower config maxLagMs p95Ms detail).version = _ ∧
      (_ → (a.sampleNow lower config maxLagMs p95Ms detail).polling = _)
    unfold LiveProbe.sampleNow
    split <;> exact ⟨rfl, id⟩
  | cooled =>
    show (a.cooled lower config).version = _ ∧ (_ → (a.cooled lower config).polling = _)
    unfold LiveProbe.cooled
    split <;> exact ⟨rfl, id⟩
  | polled =>
    show a.polled.version = _ ∧ (_ → a.polled.polling = _)
    unfold LiveProbe.polled
    split
    · rename_i job hjob
      split
      · refine ⟨rfl, fun hsent => ?_⟩
        rw [hsent] at hjob
        cases hjob
      · exact ⟨rfl, id⟩
    · exact ⟨rfl, id⟩
  | poll | stop | settled =>
    unfold LiveProbe.next
    dsimp only
    split <;> first | exact ⟨rfl, id⟩ | exact ⟨rfl, fun _ => rfl⟩

/-- A broker says that nothing has changed only where its version is the one of the request. -/
theorem unchanged_version {s : BrokerState} {since version : ℕ} {scope : ResourceScope} {serviceId : JsString}
    {commitSha : Option JsString} (h : s.pollAnswer cfg serviceId since commitSha scope = .ok (.unchanged version)) :
    version = since := by
  unfold pollAnswer at h
  dsimp only at h
  split at h
  · rename_i hsince
    cases h
    exact_mod_cast hsince.symm
  · cases hl : s.located cfg serviceId commitSha scope with
    | error e =>
      rw [hl] at h
      cases h
    | ok probes =>
      rw [hl] at h
      cases h

/-- What the broker answers to the agent's poll. -/
theorem pollReply_spec {now : ℕ} {r : PollResponse}
    (hr : pollReply (f.server.state.handle cfg now subject.scope (f.pollRequest subject)).2 = some r) :
    r = .unchanged f.agent.version ∨ ∃ version probes, r = .full version probes ∧
      Shows subject (f.server.next cfg (.call now subject.scope (f.pollRequest subject))) version probes := by
  have hanswer : (f.server.state.handle cfg now subject.scope (f.pollRequest subject)).2 = .poll (.ok r) := by
    generalize (f.server.state.handle cfg now subject.scope (f.pollRequest subject)).2 = x at hr
    cases x with
    | poll x =>
      rcases x with e | x
      · cases hr
      · cases hr
        rfl
    | _ => cases hr
  rcases r with version | ⟨version, probes⟩
  · exact .inl (congrArg _ (unchanged_version (Response.poll.inj hanswer)))
  · refine .inr ⟨version, probes, rfl, ?_⟩
    let s := (f.server.state.handle cfg now subject.scope (f.pollRequest subject)).1
    let record : PollRecord :=
      { scope := subject.scope, serviceId := subject.serviceId, commitSha := subject.commitSha
        answer := .full version probes, current := s.located cfg subject.serviceId subject.commitSha subject.scope }
    have hrecord : Server.pollRecord cfg s subject.scope (f.pollRequest subject)
        (f.server.state.handle cfg now subject.scope (f.pollRequest subject)).2 = some record := by
      rw [hanswer]
      rfl
    refine ⟨record, List.mem_append_left _ ?_, rfl, rfl, rfl, rfl⟩
    rw [Option.mem_toList]
    exact hrecord

namespace Follows

theorem init : Follows cfg lower config parseProbe subject {} where
  server := .init
  grown := .init
  kept := .init
  replies _ h := by cases h
  wants := ⟨fun _ _ => ⟨fun _ _ h => (by cases h), .inl ⟨rfl, rfl⟩⟩, fun _ _ h => (by cases h)⟩

theorem server_next (h : Follows cfg lower config parseProbe subject f) {e : ServerEvent} (hv : Server.Valid e)
    (hsafe : Server.SafeRejection f.server e) :
    Follows cfg lower config parseProbe subject { f with server := f.server.next cfg e } where
  server := h.server.next e hv hsafe
  grown := h.grown.next h.server hv
  kept := h.kept
  replies r hr := (h.replies r hr).congr rfl rfl fun _ _ hshown => hshown.next e
  wants := h.wants.mono fun _ hw => hw.next e

/-- The agent does something else. -/
theorem agent_next (h : Follows cfg lower config parseProbe subject f) {e : LiveProbe.Event}
    (he : ∀ answer, e ≠ .answered answer) (hfailed : e ≠ .failed) :
    Follows cfg lower config parseProbe subject { f with agent := f.agent.next lower config maxLagMs e } := by
  obtain ⟨hversion, hsent⟩ := agent_poll lower config maxLagMs f.agent he hfailed
  refine ⟨h.server, h.grown, h.kept.next e, fun r hr => ?_, ?_⟩
  · have hreply := h.replies r hr
    exact hreply.congr ((hsent hreply.1).trans hreply.1.symm) hversion fun _ _ => id
  · show (f.agent.next lower config maxLagMs e).Wants (Stands parseProbe subject f.server _)
    rw [hversion]
    exact h.wants.next he

/-- The answer of the poll is used up. -/
theorem consumed (h : Follows cfg lower config parseProbe subject f) (e : LiveProbe.Event)
    (hwants : (f.agent.next lower config maxLagMs e).Wants
      (Stands parseProbe subject f.server (f.agent.next lower config maxLagMs e).version)) :
    Follows cfg lower config parseProbe subject { f with agent := f.agent.next lower config maxLagMs e, reply := none } where
  server := h.server
  grown := h.grown
  kept := h.kept.next e
  replies r hr := by cases hr
  wants := hwants

/-- The poll fails. -/
theorem failed (h : Follows cfg lower config parseProbe subject f) :
    Follows cfg lower config parseProbe subject
      { f with agent := f.agent.next lower config maxLagMs .failed, reply := none } := by
  refine h.consumed .failed ?_
  have hversion : (f.agent.next lower config maxLagMs .failed).version = f.agent.version := by
    unfold LiveProbe.next
    dsimp only
    split <;> rfl
  rw [hversion]
  exact h.wants.next fun answer hanswer => by cases hanswer

theorem replied (h : Follows cfg lower config parseProbe subject f) {reply : Option PollResponse}
    (hreply : ∀ r ∈ reply, Replies subject f r) : Follows cfg lower config parseProbe subject { f with reply } :=
  ⟨h.server, h.grown, h.kept, fun r hr => (hreply r hr).congr rfl rfl fun _ _ => id, h.wants⟩

theorem served (h : Follows cfg lower config parseProbe subject f) (hsent : f.agent.polling = some .sent)
    {now : ℕ} (hv : (f.pollRequest subject).Valid) :
    Follows cfg lower config parseProbe subject
      { f with
        server := f.server.next cfg (.call now subject.scope (f.pollRequest subject))
        reply := pollReply (f.server.state.handle cfg now subject.scope (f.pollRequest subject)).2 } := by
  have hvalid : Server.Valid (.call now subject.scope (f.pollRequest subject)) := hv
  have hnext := h.server_next hvalid trivial
  refine hnext.replied fun r hr => ?_
  have hspec := pollReply_spec hr
  exact ⟨hsent, hspec⟩

/-- The answer says that nothing has changed, or it stands for what the manager is told to want. -/
theorem answered (h : Follows cfg lower config parseProbe subject f) {r : PollResponse} {answer : PollAnswer}
    (hr : f.reply = some r) (hread : parsePollResponse parseProbe r = some answer) :
    Follows cfg lower config parseProbe subject
      { f with agent := f.agent.next lower config maxLagMs (.answered answer), reply := none } := by
  obtain ⟨hsent, hreply⟩ := h.replies r hr
  refine h.consumed (.answered answer) ?_
  show (f.agent.answered lower config answer).Wants
    (Stands parseProbe subject f.server (f.agent.answered lower config answer).version)
  rcases hreply with rfl | ⟨version, shown, rfl, hshown⟩
  · cases hread
    have hversion : (f.agent.answered lower config ⟨f.agent.version, none⟩).version = f.agent.version := by
      unfold LiveProbe.answered
      split
      · rfl
      · split <;> rfl
    rw [hversion]
    exact h.wants.unchanged _
  · obtain ⟨probes, hprobes, rfl⟩ := Option.map_eq_some_iff.mp hread
    by_cases hstopped : f.agent.stopped = true
    · refine .of_stopped ?_
      unfold LiveProbe.answered
      rw [if_neg (not_not.mpr hsent), if_pos hstopped]
      exact hstopped
    · have hversion : (f.agent.answered lower config ⟨version, some probes⟩).version = version := by
        unfold LiveProbe.answered
        rw [if_neg (not_not.mpr hsent), if_neg hstopped]
      rw [hversion]
      exact h.wants.full h.kept hsent version (.inr ⟨shown, probes, hshown, hprobes, rfl⟩)

theorem next (h : Follows cfg lower config parseProbe subject f) {e : Event} (he : Valid subject f e) :
    Follows cfg lower config parseProbe subject (f.next cfg lower config maxLagMs parseProbe subject e) := by
  cases e with
  | server e => exact h.server_next he.1 he.2
  | agent e =>
    cases e with
    | answered answer => exact h
    | failed => exact h.failed
    | _ => exact h.agent_next (fun answer heq => by cases heq) (fun heq => by cases heq)
  | served now =>
    unfold PolledBroker.next
    dsimp only
    split
    · rename_i hsent
      exact h.served hsent.1 he
    · exact h
  | delivered =>
    unfold PolledBroker.next
    dsimp only
    split
    · exact h
    · rename_i r hr
      split
      · exact h.failed
      · rename_i answer hread
        exact h.answered hr hread

end Follows

/-- **Between its polls an agent wants what its version stands for.**  Where the
broker has the version of an agent that is running and has no poll under way, the
broker's active set is one the agent can read, and it is exactly what the manager
of the agent wants. -/
theorem agent_follows (hcommit : ∀ c ∈ subject.commitSha, nul ∉ c)
    (h : Reached (next cfg lower config maxLagMs parseProbe subject) (Valid subject) {} f)
    (hrun : f.agent.stopped = false) (hidle : f.agent.polling = none)
    (hversion : f.server.state.serviceVersion subject.scope subject.serviceId = f.agent.version) :
    ∃ active probes, f.server.state.located cfg subject.serviceId subject.commitSha subject.scope = .ok active ∧
      active.mapM parseProbe = some probes ∧
      ∀ id, f.agent.manager.desired.get? id = NodeProbes.State.wanted probes id := by
  have hfollows : Follows cfg lower config parseProbe subject f := h.invariant .init fun _ _ hs he => hs.next he
  obtain ⟨-, hstands⟩ := hfollows.wants.calm hrun fun job hjob => by
    rw [hidle] at hjob
    cases hjob
  rcases hstands with ⟨hzero, hwants⟩ | ⟨shown, probes, hshown, hread, hwants⟩
  · refine ⟨[], [], hfollows.grown.located hcommit (hversion.trans hzero), rfl, fun id => ?_⟩
    rw [hwants]
    rfl
  · obtain ⟨a, ha, hscope, hservice, hsha, hanswer⟩ := hshown
    obtain ⟨w, ⟨probes', hfull, hlocated⟩, hadvances⟩ := hfollows.server.polls a ha (by rw [hanswer]; rfl)
    rw [hanswer] at hfull
    obtain ⟨hw, rfl⟩ := PollResponse.full.inj hfull
    rw [hscope, hservice] at hadvances
    refine ⟨shown, probes, ?_, hread, fun id => congrFun hwants id⟩
    rw [located_view hcommit, ← ServiceView.located_congr (hadvances.content_eq (hw.symm.trans hversion.symm)), ← hsha]
    exact hlocated

/-! ### A counter that reaches the agent -/

/-- The JSON text of a counter without coordinates. -/
def counterText (p : ProbeDefinition) : JsString :=
  js "\x7b\"id\":" ++ quote p.id ++ js ",\"serviceId\":" ++ quote p.serviceId ++ js ",\"file\":" ++ quote p.file ++
    js ",\"line\":" ++ decimal p.line ++ js ",\"ttlSeconds\":" ++ decimal p.ttlSeconds ++
    js ",\"hitLimit\":" ++ decimal p.hitLimit ++ js ",\"version\":" ++ decimal p.version ++
    js ",\"createdBy\":" ++ quote p.createdBy ++ js ",\"type\":\"counter\"\x7d"

def sampleSubject : Subject := ⟨Sample.scope, js "api", none⟩

/-- A counter is created and persisted, and polled by the agent. -/
def following : List Event :=
  [.server (.start 0 (.request Sample.scope (.createProbe (Sample.draw 'A') (Sample.counter 1)))), .server .persisted,
    .agent .poll, .served 0, .delivered, .agent (.manager (.reconcileNext 0)), .agent .polled]

/-- The broker and the agent after it. -/
def followed : PolledBroker :=
  following.foldl (next Sample.config id PauseCapture.defaultManagerConfig 50 (NodeAgent.parseProbe counterText (js "api"))
    sampleSubject) {}

theorem followed_follows :
    followed.agent.version = 1 ∧
      ∃ active probes, followed.server.state.located Sample.config (js "api") none Sample.scope = .ok active ∧
        active.mapM (NodeAgent.parseProbe counterText (js "api")) = some probes ∧
        ∀ id, followed.agent.manager.desired.get? id = NodeProbes.State.wanted probes id := by
  have hreached : Reached (next Sample.config id PauseCapture.defaultManagerConfig 50
      (NodeAgent.parseProbe counterText (js "api")) sampleSubject) (Valid sampleSubject) {} followed :=
    Reached.foldl .init ⟨⟨Sample.counter_valid 1 List.mem_cons_self, trivial⟩, ⟨trivial, trivial⟩, trivial,
      ⟨by decide, by decide⟩, trivial, trivial, trivial, trivial⟩
  exact ⟨rfl, agent_follows (fun _ h => by cases h) hreached rfl rfl rfl⟩

end PolledBroker
