/-
LiveProbe/NodeLoop.lean

The Node agent as a process: `LiveProbe` of `live-probe.ts` with its polls, its
`EventLoopSafetyMonitor` and the probe manager of `NodeProbes`.

The monitor suspends the manager when the event loop lags and lets it go when
the cooldown is over.  Whatever comes in between, the manager is suspended as
long as the monitor is red, and a red monitor has its timer set (`Kept`).  So an
agent whose monitor is red takes no hit and installs no probe (`red_rests`).
-/
import LiveProbe.NodeReconciled

open JsString NodeProbes

/-! ### The monitor -/

/-- `EventLoopSafetyMonitor` after `start`; `cooldown` says that its timer is set. -/
structure SafetyMonitor where
  started : Bool := true
  red : Bool := false
  cooldown : Bool := false

namespace SafetyMonitor

/-- Whether `sampleNow` finds a lag; a percentile that is not finite is none. -/
def lags (maxLagMs : ℚ) (p95Ms : Option ℚ) (m : SafetyMonitor) : Bool :=
  m.started && !m.red && p95Ms.any fun p95Ms => maxLagMs < p95Ms

/-- `sampleNow` where it finds a lag. -/
def turnRed (m : SafetyMonitor) : SafetyMonitor := { m with red := true, cooldown := true }

/-- The timer fires. -/
def turnGreen (m : SafetyMonitor) : SafetyMonitor :=
  if m.started then { m with red := false, cooldown := false } else { m with cooldown := false }

def stop (m : SafetyMonitor) : SafetyMonitor := if m.started then ⟨false, false, false⟩ else m

end SafetyMonitor

/-! ### The agent -/

/-- How far a call of `#poll` has come. -/
inductive Polling
  | sent
  /-- the answer has probes, and the call of `reconcile` is under way -/
  | reconciling (job : ℕ)
  deriving DecidableEq

/-- The answer to a poll; there are no probes when they are unchanged. -/
structure PollAnswer where
  version : ℕ
  probes : Option (List NodeProbes.ProbeDefinition)

structure LiveProbe where
  manager : NodeProbes.State := {}
  monitor : SafetyMonitor := {}
  version : ℕ := 0
  stopped : Bool := false
  polling : Option Polling := none

namespace LiveProbe

inductive Event
  /-- a stretch of the manager, or of the inspector -/
  | manager (e : NodeProbes.Event)
  | sampleNow (p95Ms : Option ℚ) (detail : JsString)
  | cooled
  /-- `#poll` up to its request -/
  | poll
  | answered (answer : PollAnswer)
  /-- the request failed, or its answer cannot be read -/
  | failed
  /-- the call of `reconcile` of the poll has returned -/
  | polled
  /-- `#stop` up to its await -/
  | stop
  /-- `#stop` once the poll has settled -/
  | settled

/-- The stretches of the manager that only the agent calls for. -/
def ownCall : NodeProbes.Event → Bool
  | .reconcile _ | .suspendAll _ | .rearm | .stop => true
  | _ => false

section

variable (lower : JsString → JsString) (config : PauseCapture.ManagerConfig) (maxLagMs : ℚ)

def sampleNow (a : LiveProbe) (p95Ms : Option ℚ) (detail : JsString) : LiveProbe :=
  if a.monitor.lags maxLagMs p95Ms then
    { a with
      monitor := a.monitor.turnRed
      manager := NodeProbes.next lower config a.manager (.suspendAll detail) }
  else a

/-- The timer of the cooldown fires, and `onRearm` is called. -/
def cooled (a : LiveProbe) : LiveProbe :=
  if !a.monitor.cooldown then a
  else
    { a with
      monitor := a.monitor.turnGreen
      manager := if a.monitor.started then NodeProbes.next lower config a.manager .rearm else a.manager }

/-- `#poll` once it is answered. -/
def answered (a : LiveProbe) (answer : PollAnswer) : LiveProbe :=
  if a.polling ≠ some .sent then a
  else if a.stopped then { a with polling := none }
  else
    match answer.probes with
    | none => { a with version := answer.version, polling := none }
    | some probes =>
      { a with
        version := answer.version
        manager := NodeProbes.next lower config a.manager (.reconcile probes)
        polling := if a.manager.stopped then none else some (.reconciling a.manager.reconciles.length) }

/-- The call of `reconcile` has had its turns. -/
def reconciled (s : NodeProbes.State) (job : ℕ) : Bool := (s.reconciles[job]?).all (·.finished)

/-- The end of `#poll`. -/
def polled (a : LiveProbe) : LiveProbe :=
  match a.polling with
  | some (.reconciling job) => if reconciled a.manager job then { a with polling := none } else a
  | _ => a

def next (a : LiveProbe) : Event → LiveProbe
  | .manager e => if ownCall e then a else { a with manager := NodeProbes.next lower config a.manager e }
  | .sampleNow p95Ms detail => a.sampleNow lower config maxLagMs p95Ms detail
  | .cooled => a.cooled lower config
  | .poll => if a.polling.isSome || a.stopped then a else { a with polling := some .sent }
  | .answered answer => a.answered lower config answer
  | .failed => if a.polling = some .sent then { a with polling := none } else a
  | .polled => a.polled
  | .stop => if a.stopped then a else { a with stopped := true, monitor := a.monitor.stop }
  | .settled =>
    if a.stopped && a.polling.isNone then { a with manager := NodeProbes.next lower config a.manager .stop } else a

end

end LiveProbe

/-! ### The monitor and the manager -/

namespace NodeProbes

variable {lower : JsString → JsString} {config : PauseCapture.ManagerConfig} {s : State}

/-- The answer to a resume changes a flag only where the inspector fails. -/
theorem answered_flags (p : ℕ) (error disconnectError : Option JsString) :
    s.Flags (s.answered p error disconnectError) ∨
      (s.answered p error disconnectError).suspended = true ∧ (s.answered p error disconnectError).inspectorFailed = true ∧
        (s.answered p error disconnectError).stopped = s.stopped := by
  rcases s.answered_cases p error disconnectError with h | ⟨_, k, -, -, h⟩
  · rw [h]
    exact .inl (.refl s)
  · rcases h with ⟨-, h⟩ | ⟨_, -, -, h⟩ | ⟨_, _, -, -, h⟩
    · rw [h]
      rcases k with - | ⟨captureError, capture⟩ <;> exact .inl ⟨rfl, rfl, rfl⟩
    · rw [h]
      exact .inl ⟨rfl, rfl, rfl⟩
    · rw [h]
      unfold State.handleResumeFailure
      dsimp only
      split
      · exact .inl ⟨rfl, rfl, rfl⟩
      · exact .inr ⟨rfl, rfl, rfl⟩

end NodeProbes

namespace LiveProbe

variable {lower : JsString → JsString} {config : PauseCapture.ManagerConfig} {maxLagMs : ℚ} {a : LiveProbe}

/-- A stretch of the manager that no one calls for suspends it only where the inspector fails. -/
theorem manager_flags (s : State) {e : NodeProbes.Event} (he : ownCall e = false) :
    s.Flags (NodeProbes.next lower config s e) ∨
      (NodeProbes.next lower config s e).suspended = true ∧ (NodeProbes.next lower config s e).inspectorFailed = true ∧
        (NodeProbes.next lower config s e).stopped = s.stopped := by
  rcases hflags : e.flags with - | -
  · exact .inl (next_flags hflags)
  · cases e with
    | answered p error disconnectError => exact answered_flags p error disconnectError
    | suspendAll | rearm | stop => cases he
    | _ => cases hflags

/-- The manager is suspended as long as the monitor is red, and otherwise only where
the inspector has failed. -/
structure Kept (lower : JsString → JsString) (config : PauseCapture.ManagerConfig) (a : LiveProbe) : Prop where
  manager : Reachable lower config a.manager
  suspended : a.monitor.red = true → a.manager.suspended = true
  awake : a.stopped = false → a.manager.suspended = true → a.monitor.red = true ∨ a.manager.inspectorFailed = true
  cooldown : a.monitor.cooldown = a.monitor.red
  red : a.monitor.red = true → a.monitor.started = true
  started : a.monitor.started = !a.stopped
  stopped : a.manager.stopped = true → a.stopped = true

namespace Kept

theorem init : Kept lower config {} where
  manager := .init
  suspended h := by cases h
  awake _ h := by cases h
  cooldown := rfl
  red h := by cases h
  started := rfl
  stopped h := by cases h

theorem manager_next (h : Kept lower config a) (e : NodeProbes.Event) :
    Reachable lower config (NodeProbes.next lower config a.manager e) := h.manager.step e trivial

/-- The flags of the manager stay as they are, or the inspector fails. -/
theorem step (h : Kept lower config a) {e : NodeProbes.Event}
    (hflags : a.manager.Flags (NodeProbes.next lower config a.manager e) ∨
      (NodeProbes.next lower config a.manager e).suspended = true ∧
        (NodeProbes.next lower config a.manager e).inspectorFailed = true ∧
        (NodeProbes.next lower config a.manager e).stopped = a.manager.stopped)
    (version : ℕ) (polling : Option Polling) :
    Kept lower config { a with manager := NodeProbes.next lower config a.manager e, version, polling } := by
  have hmanager := h.manager_next e
  rcases hflags with hsame | ⟨hsuspended, hfailed, hstopped⟩
  · refine ⟨hmanager, fun hred => hsame.suspended.trans (h.suspended hred), fun hrun hs => ?_, h.cooldown, h.red, h.started,
      fun hs => h.stopped (hsame.stopped.symm.trans hs)⟩
    exact (h.awake hrun (hsame.suspended.symm.trans hs)).imp_right hsame.failed.trans
  · exact ⟨hmanager, fun _ => hsuspended, fun _ _ => .inr hfailed, h.cooldown, h.red, h.started,
      fun hs => h.stopped (hstopped.symm.trans hs)⟩

theorem sampleNow (h : Kept lower config a) (p95Ms : Option ℚ) (detail : JsString) :
    Kept lower config (a.sampleNow lower config maxLagMs p95Ms detail) := by
  unfold LiveProbe.sampleNow
  split
  · rename_i hlags
    have hstarted : a.monitor.started = true := by
      simp only [SafetyMonitor.lags, Bool.and_eq_true] at hlags
      exact hlags.1.1
    have hrun : a.stopped = false := by
      have hstarted' := h.started
      rw [hstarted] at hstarted'
      exact Bool.not_eq_true' _ ▸ hstarted'.symm
    have hworks : a.manager.stopped = false := by
      refine Bool.eq_false_iff.mpr fun hs => ?_
      rw [h.stopped hs] at hrun
      cases hrun
    have heq : (NodeProbes.next lower config a.manager (.suspendAll detail)).suspended = true ∧
        (NodeProbes.next lower config a.manager (.suspendAll detail)).stopped = a.manager.stopped := by
      show (a.manager.suspendAll detail).suspended = true ∧ (a.manager.suspendAll detail).stopped = _
      unfold State.suspendAll
      rw [hworks, Bool.false_or]
      split
      · rename_i hs
        exact ⟨hs, hworks⟩
      · exact ⟨rfl, hworks⟩
    exact ⟨h.manager_next (.suspendAll detail), fun _ => heq.1, fun _ _ => .inl rfl, rfl, fun _ => hstarted, h.started,
      fun hs => h.stopped (heq.2.symm.trans hs)⟩
  · exact h

theorem cooled (h : Kept lower config a) : Kept lower config (a.cooled lower config) := by
  unfold LiveProbe.cooled
  split
  · exact h
  · rename_i hcooldown
    have hred : a.monitor.red = true := by
      rw [← h.cooldown]
      simpa using hcooldown
    have hstarted := h.red hred
    rw [SafetyMonitor.turnGreen, if_pos hstarted, if_pos hstarted]
    have hstopped : (NodeProbes.next lower config a.manager .rearm).stopped = a.manager.stopped := by
      show a.manager.rearm.stopped = _
      unfold State.rearm
      split <;> rfl
    refine ⟨h.manager_next .rearm, fun hs => (by cases hs), fun hrun hs => .inr ?_, rfl, fun hs => (by cases hs), h.started,
      fun hs => h.stopped (hstopped.symm.trans hs)⟩
    -- a re-arming that leaves the manager suspended has found the inspector failed
    have hs : a.manager.rearm.suspended = true := hs
    show a.manager.rearm.inspectorFailed = true
    unfold State.rearm at hs ⊢
    split at hs
    · rename_i hidle
      rw [if_pos hidle]
      rcases Bool.or_eq_true_iff.mp hidle with hs | hfailed
      · have hrun : a.stopped = false := hrun
        rw [h.stopped hs] at hrun
        cases hrun
      · exact hfailed
    · cases hs

theorem answered (h : Kept lower config a) (answer : PollAnswer) : Kept lower config (a.answered lower config answer) := by
  unfold LiveProbe.answered
  split
  · exact h
  · split
    · exact ⟨h.manager, h.suspended, h.awake, h.cooldown, h.red, h.started, h.stopped⟩
    · split
      · exact ⟨h.manager, h.suspended, h.awake, h.cooldown, h.red, h.started, h.stopped⟩
      · exact h.step (.inl (next_flags rfl)) _ _

theorem next (h : Kept lower config a) (e : Event) : Kept lower config (a.next lower config maxLagMs e) := by
  cases e with
  | manager e =>
    unfold LiveProbe.next
    dsimp only
    split
    · exact h
    · rename_i he
      exact h.step (manager_flags _ (Bool.eq_false_iff.mpr he)) a.version a.polling
  | sampleNow p95Ms detail => exact h.sampleNow p95Ms detail
  | cooled => exact h.cooled
  | poll =>
    unfold LiveProbe.next
    dsimp only
    split <;> exact ⟨h.manager, h.suspended, h.awake, h.cooldown, h.red, h.started, h.stopped⟩
  | answered answer => exact h.answered answer
  | failed =>
    unfold LiveProbe.next
    dsimp only
    split <;> exact ⟨h.manager, h.suspended, h.awake, h.cooldown, h.red, h.started, h.stopped⟩
  | polled =>
    show Kept lower config a.polled
    unfold LiveProbe.polled
    split
    · split <;> exact ⟨h.manager, h.suspended, h.awake, h.cooldown, h.red, h.started, h.stopped⟩
    · exact h
  | stop =>
    unfold LiveProbe.next SafetyMonitor.stop
    dsimp only
    split
    · exact h
    · rename_i hrun
      have hstarted : a.monitor.started = true := by
        rw [h.started, Bool.eq_false_iff.mpr hrun]
        rfl
      rw [if_pos hstarted]
      exact ⟨h.manager, fun hs => (by cases hs), fun hs => (by cases hs), rfl, fun hs => (by cases hs), rfl, fun _ => rfl⟩
  | settled =>
    unfold LiveProbe.next
    dsimp only
    split
    · rename_i hidle
      have hstopped : a.stopped = true := (Bool.and_eq_true_iff.mp hidle).1
      have heq : (NodeProbes.next lower config a.manager .stop).suspended = a.manager.suspended := by
        show a.manager.stop.suspended = _
        unfold State.stop
        split <;> rfl
      refine ⟨h.manager_next .stop, fun hred => heq.trans (h.suspended hred), fun hrun => ?_, h.cooldown, h.red, h.started,
        fun _ => hstopped⟩
      have hrun : a.stopped = false := hrun
      rw [hstopped] at hrun
      cases hrun
    · exact h

end Kept

/-! ### While the monitor is red -/

/-- A resume of some pause, an answer to one, or the end of the session. -/
def OfResumes (x : Seen) : Prop := (∃ p, x.about p = true) ∨ x = .disconnect

def run (lower : JsString → JsString) (config : PauseCapture.ManagerConfig) (maxLagMs : ℚ) (a : LiveProbe)
    (l : List Event) : LiveProbe := l.foldl (next lower config maxLagMs) a

/-- What the agent does to the manager. -/
theorem next_manager (lower : JsString → JsString) (config : PauseCapture.ManagerConfig) (maxLagMs : ℚ) (a : LiveProbe)
    {e : Event} (he : e ≠ .cooled) :
    (a.next lower config maxLagMs e).manager = a.manager ∨
      ∃ e', e' ≠ .rearm ∧ (a.next lower config maxLagMs e).manager = NodeProbes.next lower config a.manager e' := by
  cases e with
  | manager e =>
    show (ite _ _ _ : LiveProbe).manager = _ ∨ ∃ e', _ ∧ (ite _ _ _ : LiveProbe).manager = _
    split
    · exact .inl rfl
    · rename_i hown
      refine .inr ⟨e, fun heq => hown ?_, rfl⟩
      rw [heq]
      rfl
  | sampleNow p95Ms detail =>
    show (a.sampleNow lower config maxLagMs p95Ms detail).manager = _ ∨
      ∃ e', _ ∧ (a.sampleNow lower config maxLagMs p95Ms detail).manager = _
    unfold LiveProbe.sampleNow
    split
    · exact .inr ⟨.suspendAll detail, fun h => (by cases h), rfl⟩
    · exact .inl rfl
  | cooled => exact absurd rfl he
  | answered answer =>
    show (a.answered lower config answer).manager = _ ∨ ∃ e', _ ∧ (a.answered lower config answer).manager = _
    unfold LiveProbe.answered
    split
    · exact .inl rfl
    · split
      · exact .inl rfl
      · split
        · exact .inl rfl
        · exact .inr ⟨.reconcile _, fun h => (by cases h), rfl⟩
  | polled =>
    refine .inl ?_
    show a.polled.manager = _
    unfold LiveProbe.polled
    split
    · split <;> rfl
    · rfl
  | settled =>
    show (ite _ _ _ : LiveProbe).manager = _ ∨ ∃ e', _ ∧ (ite _ _ _ : LiveProbe).manager = _
    split
    · exact .inr ⟨.stop, fun h => (by cases h), rfl⟩
    · exact .inl rfl
  | poll | failed | stop =>
    refine .inl ?_
    show (ite _ _ _ : LiveProbe).manager = _
    split <;> rfl

/-- A manager that is suspended rests until the cooldown is over. -/
theorem still_run {l : List Event} (h : a.manager.Still) (hl : Event.cooled ∉ l) :
    (run lower config maxLagMs a l).manager.Still ∧ Adds OfResumes a.manager (run lower config maxLagMs a l).manager := by
  induction l generalizing a with
  | nil => exact ⟨h, .refl _⟩
  | cons e l ih =>
    rw [List.mem_cons, not_or] at hl
    rcases a.next_manager lower config maxLagMs (Ne.symm hl.1) with heq | ⟨e', he', heq⟩
    · obtain ⟨hstill, hadds⟩ := ih (heq ▸ h) hl.2
      exact ⟨hstill, heq ▸ hadds⟩
    · have hnext : (NodeProbes.next lower config a.manager e').Still := h.next fun h => absurd h he'
      obtain ⟨hstill, hadds⟩ := ih (heq ▸ hnext) hl.2
      refine ⟨hstill, .trans ((h.seen e').mono fun x hx => ?_) (heq ▸ hadds)⟩
      exact hx.imp_right (·.1)

/-- A counter is polled and armed, and the event loop lags. -/
def lagging : List Event :=
  [.poll, .answered ⟨1, some [sampleProbe]⟩] ++ arming.tail.map Event.manager ++ [.polled, .sampleNow (some 80) (js "lag")]

end LiveProbe
