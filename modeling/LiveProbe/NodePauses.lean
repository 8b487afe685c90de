/-
LiveProbe/NodePauses.lean

What a step of the Node agent's manager can do: how it changes the state
(`Forward`), and what is seen of it (`next_seen`).

No step lowers the epoch, and a step that suspends probes raises it.  An
installation that has lost its name never gets it back, for a name is given only
to a new one.
-/
import LiveProbe.NodeReservations
import Mathlib.Data.List.Infix

open JsString

namespace NodeProbes

/-! ### Steps go forward -/

/-- Each installation is still there, with its definition, and not revived. -/
def Kept (l l' : List InstalledProbe) : Prop :=
  ∀ (o : ℕ) (i : InstalledProbe), l[o]? = some i →
    ∃ i', l'[o]? = some i' ∧ i'.definition = i.definition ∧ (i'.active = true → i.active = true)

/-- Each pause is still there, with its candidates and its epoch. -/
def Lasting (l l' : List Pause) : Prop :=
  ∀ (p : ℕ) (pause : Pause), l[p]? = some pause →
    ∃ pause', l'[p]? = some pause' ∧ pause'.candidates = pause.candidates ∧ pause'.captureEpoch = pause.captureEpoch

theorem Kept.refl (l : List InstalledProbe) : Kept l l := fun _ i h => ⟨i, h, rfl, id⟩

theorem Kept.trans {l l' l'' : List InstalledProbe} (h : Kept l l') (h' : Kept l' l'') : Kept l l'' := by
  intro o i hi
  obtain ⟨i', hi', hdef, hactive⟩ := h o i hi
  obtain ⟨i'', hi'', hdef', hactive'⟩ := h' o i' hi'
  exact ⟨i'', hi'', hdef'.trans hdef, hactive ∘ hactive'⟩

/-- A change that keeps the definitions and revives nothing. -/
theorem Kept.change (s : State) (which : List ℕ) {f : InstalledProbe → InstalledProbe}
    (hdef : ∀ i, (f i).definition = i.definition) (hactive : ∀ i, (f i).active = true → i.active = true) :
    Kept s.installations (s.change which f).installations := by
  intro o i hi
  refine ⟨if o ∈ which then f i else i, ?_, ?_, ?_⟩
  · rw [State.change_installations, hi]
    rfl
  · split
    · exact hdef i
    · rfl
  · split
    · exact hactive i
    · exact id

theorem Kept.deactivate (s : State) (which : List ℕ) : Kept s.installations (s.deactivate which).installations :=
  Kept.change s which (fun _ => rfl) fun _ h => by cases h

theorem Lasting.refl (l : List Pause) : Lasting l l := fun _ pause h => ⟨pause, h, rfl, rfl⟩

theorem Lasting.trans {l l' l'' : List Pause} (h : Lasting l l') (h' : Lasting l' l'') : Lasting l l'' := by
  intro p pause hp
  obtain ⟨pause', hp', hcandidates, hepoch⟩ := h p pause hp
  obtain ⟨pause'', hp'', hcandidates', hepoch'⟩ := h' p pause' hp'
  exact ⟨pause'', hp'', hcandidates'.trans hcandidates, hepoch'.trans hepoch⟩

/-- A change of one pause that keeps what it was begun with. -/
theorem Lasting.modify (l : List Pause) (q : ℕ) {f : Pause → Pause} (hcandidates : ∀ pause, (f pause).candidates = pause.candidates)
    (hepoch : ∀ pause, (f pause).captureEpoch = pause.captureEpoch) : Lasting l (l.modify q f) := by
  intro p pause hp
  refine ⟨if q = p then f pause else pause, ?_, ?_, ?_⟩
  · rw [List.getElem?_modify, hp]
    rfl
  · split
    · exact hcandidates pause
    · rfl
  · split
    · exact hepoch pause
    · rfl

theorem Lasting.append (l m : List Pause) : Lasting l (l ++ m) := fun p pause hp =>
  ⟨pause, by rw [List.getElem?_append_left (List.getElem?_eq_some_iff.mp hp).1, hp], rfl, rfl⟩

/-- A step, or several. -/
structure Forward (s t : State) : Prop where
  epoch : s.epoch ≤ t.epoch
  /-- a suspension raises the epoch -/
  suspended : t.epoch = s.epoch → s.suspended = false → t.suspended = false
  stopped : t.stopped = false → s.stopped = false
  failed : t.inspectorFailed = false → s.inspectorFailed = false
  kept : Kept s.installations t.installations
  length : s.installations.length ≤ t.installations.length
  /-- a name is given to new installations only -/
  named : ∀ id o, o < s.installations.length → t.installed.get? id = some o → s.installed.get? id = some o
  lasting : Lasting s.pauses t.pauses
  seen : s.seen <+: t.seen

namespace Forward

variable {s t u : State}

theorem refl (s : State) : Forward s s :=
  ⟨le_rfl, fun _ h => h, id, id, .refl _, le_rfl, fun _ _ _ h => h, .refl _, List.prefix_rfl⟩

/-- The epoch cannot fall, so an epoch that is the same at both ends is the same in between. -/
theorem trans (h : Forward s t) (h' : Forward t u) : Forward s u where
  epoch := h.epoch.trans h'.epoch
  suspended he hs := by
    have hst : t.epoch = s.epoch := le_antisymm (he ▸ h'.epoch) h.epoch
    exact h'.suspended (he.trans hst.symm) (h.suspended hst hs)
  stopped hu := h.stopped (h'.stopped hu)
  failed hu := h.failed (h'.failed hu)
  kept := h.kept.trans h'.kept
  length := h.length.trans h'.length
  named id o ho hu := h.named id o ho (h'.named id o (ho.trans_le h.length) hu)
  lasting := h.lasting.trans h'.lasting
  seen := h.seen.trans h'.seen

/-- Nothing is suspended, and no probe installed. -/
theorem of_calm (hepoch : t.epoch = s.epoch) (hsuspended : t.suspended = s.suspended) (hstopped : t.stopped = s.stopped)
    (hfailed : t.inspectorFailed = s.inspectorFailed) (hkept : Kept s.installations t.installations)
    (hlength : t.installations.length = s.installations.length)
    (hnamed : ∀ id o, t.installed.get? id = some o → s.installed.get? id = some o)
    (hlasting : Lasting s.pauses t.pauses) (hseen : s.seen <+: t.seen) : Forward s t :=
  ⟨hepoch.ge, fun _ h => hsuspended ▸ h, fun h => hstopped ▸ h, fun h => hfailed ▸ h, hkept, hlength.ge,
    fun id o _ h => hnamed id o h, hlasting, hseen⟩

/-- The names, the installations and the pauses stay. -/
theorem of_quiet (hepoch : t.epoch = s.epoch) (hsuspended : t.suspended = s.suspended) (hstopped : t.stopped = s.stopped)
    (hfailed : t.inspectorFailed = s.inspectorFailed) (hinst : t.installations = s.installations)
    (hinstalled : t.installed = s.installed) (hpauses : t.pauses = s.pauses) (hseen : s.seen <+: t.seen) :
    Forward s t :=
  of_calm hepoch hsuspended hstopped hfailed (hinst ▸ .refl _) (by rw [hinst]) (fun _ _ h => hinstalled ▸ h)
    (hpauses ▸ .refl _) hseen

theorem see (s : State) (l : List Seen) : Forward s (s.see l) :=
  of_quiet rfl rfl rfl rfl rfl rfl rfl (List.prefix_append _ _)

theorem error (s : State) (probe : ProbeDefinition) (detail : JsString) : Forward s (s.error probe detail) :=
  of_quiet rfl rfl rfl rfl rfl rfl rfl List.prefix_rfl

theorem change (s : State) (which : List ℕ) {f : InstalledProbe → InstalledProbe}
    (hdef : ∀ i, (f i).definition = i.definition) (hactive : ∀ i, (f i).active = true → i.active = true) :
    Forward s (s.change which f) :=
  of_calm rfl rfl rfl rfl (.change s which hdef hactive) (State.change_length s which f) (fun _ _ h => h) (.refl _)
    List.prefix_rfl

/-- Only the stage of a pause changes. -/
theorem setStage (s : State) (p : ℕ) (stage : Stage) : Forward s (s.setStage p stage) :=
  of_calm rfl rfl rfl rfl (.refl _) rfl (fun _ _ h => h) (.modify _ _ (fun _ => rfl) fun _ => rfl) List.prefix_rfl

/-- A new pause comes after those there are. -/
theorem pause (s : State) (candidates counted : List ℕ) : Forward s (s.pause candidates counted) :=
  of_calm rfl rfl rfl rfl (.refl _) rfl (fun _ _ h => h) (.append _ _) List.prefix_rfl

/-- Hits that were reserved are given back; nothing else changes. -/
theorem releasePending (s : State) (candidates : List ℕ) : Forward s (s.releasePending candidates) :=
  change s candidates (fun _ => rfl) fun _ h => h

/-- A name that is left after another was deleted was there before. -/
theorem deleted (s : State) (id : JsString) : ∀ id' o, (s.installed.delete id).get? id' = some o →
    s.installed.get? id' = some o := by
  intro id' o h
  rw [JsMap.get?_delete] at h
  split at h
  · cases h
  · exact h

/-- A probe at its limit loses its name and is inactive, and its status is seen. -/
theorem retireAtHitLimit (s : State) (o : ℕ) : Forward s (s.retireAtHitLimit o) := by
  unfold State.retireAtHitLimit
  split
  · exact refl s
  · split
    · exact refl s
    · exact of_calm rfl rfl rfl rfl (.deactivate s [o]) (State.change_length s [o] _) (deleted s _) (.refl _)
        (List.prefix_append _ _)

/-- An uninstalled probe loses its name and is inactive. -/
theorem uninstall (s : State) (o : ℕ) : Forward s (s.uninstall o) := by
  unfold State.uninstall
  split
  · exact refl s
  · exact of_calm rfl rfl rfl rfl (.deactivate s [o]) (State.change_length s [o] _) (deleted s _) (.refl _) List.prefix_rfl

theorem limitCounted (s : State) (o : ℕ) : Forward s (s.limitCounted o) := by
  unfold State.limitCounted
  split
  · exact retireAtHitLimit s o
  · exact refl s

/-- Forward steps in a row go forward. -/
theorem foldl {α : Type*} {f : State → α → State} (hf : ∀ s a, Forward s (f s a)) (l : List α) (s : State) :
    Forward s (l.foldl f s) :=
  foldl_rel refl trans hf l s

/-- All probes are given up, and the epoch is raised. -/
theorem of_clear (hepoch : t.epoch = s.epoch + 1) (hstopped : t.stopped = false → s.stopped = false)
    (hfailed : t.inspectorFailed = false → s.inspectorFailed = false)
    (hinst : t.installations = s.clear.installations) (hinstalled : t.installed = ∅) (hpauses : t.pauses = s.pauses)
    (hseen : s.seen <+: t.seen) : Forward s t where
  epoch := by omega
  suspended he := by omega
  stopped := hstopped
  failed := hfailed
  kept := hinst ▸ Kept.deactivate s _
  length := by
    rw [hinst]
    exact (State.change_length s _ _).ge
  named id o _ h := by
    rw [hinstalled] at h
    simp at h
  lasting := hpauses ▸ .refl _
  seen := hseen

/-- All probes are suspended, under a new epoch. -/
theorem suspendAll (s : State) (detail : JsString) : Forward s (s.suspendAll detail) := by
  unfold State.suspendAll
  split
  · exact refl s
  · exact of_clear rfl id id rfl rfl rfl (List.prefix_append _ _)

/-- The suspension ends, within its epoch. -/
theorem rearm (s : State) : Forward s s.rearm := by
  unfold State.rearm
  split
  · exact refl s
  · exact ⟨le_rfl, fun _ _ => rfl, id, id, .refl _, le_rfl, fun _ _ _ h => h, .refl _, List.prefix_rfl⟩

/-- The manager stops, under a new epoch. -/
theorem stop (s : State) : Forward s s.stop := by
  unfold State.stop
  split
  · exact refl s
  · exact of_clear rfl (fun h => by cases h) id rfl rfl rfl List.prefix_rfl

/-- The pause waits for its resume, or is settled where no inspector is left. -/
theorem resumeWithFallback (s : State) (p : ℕ) (k : OnResumed) : Forward s (s.resumeWithFallback p k) := by
  unfold State.resumeWithFallback
  split
  · exact (releasePending s _).trans (setStage _ p _)
  · exact (see s _).trans (setStage _ p _)

/-- The pause waits for `setImmediate`, or is settled. -/
theorem resumed (s : State) (p : ℕ) (k : OnResumed) : Forward s (s.resumed p k) := by
  rcases k with - | ⟨captureError, capture⟩
  · exact setStage s p _
  · exact setStage s p _

/-- Two resumes have failed: the first time the session ends under a new epoch. -/
theorem handleResumeFailure (s : State) (p : ℕ) (firstError retryError : JsString) (disconnectError : Option JsString) :
    Forward s (s.handleResumeFailure p firstError retryError disconnectError) := by
  have hsettled := (releasePending s (s.candidatesOf p)).trans (setStage _ p .settled)
  unfold State.handleResumeFailure
  dsimp only
  split
  · -- the session is gone already
    exact hsettled
  · -- the first failure clears the manager and shows the disconnect
    refine hsettled.trans (of_clear rfl id (fun h => by cases h) rfl rfl rfl (List.prefix_append _ _))

/-- An answer to a resume is seen, and what follows from it. -/
theorem answered (s : State) (p : ℕ) (error disconnectError : Option JsString) :
    Forward s (s.answered p error disconnectError) := by
  rcases s.answered_cases p error disconnectError with h | ⟨_, k, -, -, h⟩
  · rw [h]
    exact refl s
  · -- the resume went through, failed for the first time, or failed again
    rcases h with ⟨-, h⟩ | ⟨_, -, -, h⟩ | ⟨_, _, -, -, h⟩
    · rw [h]
      exact (see s _).trans (resumed _ p k)
    · rw [h]
      exact (see s _).trans (setStage _ p _)
    · rw [h]
      exact (see s _).trans (handleResumeFailure _ p _ _ _)

/-- The errors that were put off are reported. -/
theorem report (s : State) : Forward s s.report := by
  have hquiet : Forward s { s with failure := none } := of_quiet rfl rfl rfl rfl rfl rfl rfl List.prefix_rfl
  unfold State.report
  split
  · exact refl s
  · split
    · exact hquiet
    · exact hquiet.trans (foldl (fun s probe => error s probe _) _ _)

/-- A breakpoint is gone, or could not be removed. -/
theorem retired (s : State) (o : ℕ) (e : Option JsString) : Forward s (s.retired o e) := by
  have hquiet : Forward s { s with retiring := s.retiring.erase o } := of_quiet rfl rfl rfl rfl rfl rfl rfl List.prefix_rfl
  unfold State.retired
  dsimp only
  split
  · exact refl s
  · split
    · exact hquiet.trans (error _ _ _)
    · exact hquiet

/-- Plain counters count on when the budget of hits is spent. -/
theorem overBudget (s : State) (candidates : List ℕ) : Forward s (s.overBudget candidates) :=
  of_calm rfl rfl rfl rfl (.change s _ (fun _ => rfl) fun _ h => h) (State.change_length s _ _) (fun _ _ h => h) (.refl _)
    (List.prefix_append _ _)

/-- A pause begins: it is resumed at once, or its candidates are reserved first. -/
theorem handlePaused (s : State) (hitBreakpoints : List JsString) (token : Bool) :
    Forward s (s.handlePaused hitBreakpoints token) := by
  unfold State.handlePaused
  dsimp only
  -- nothing was hit, the budget of hits is spent, or the candidates are reserved
  split
  · exact (pause s [] []).trans (resumeWithFallback _ _ _)
  · split
    · exact ((overBudget s _).trans (pause _ _ _)).trans (resumeWithFallback _ _ _)
    · have hreserve := (change s (s.candidates hitBreakpoints) (f := fun i => { i with pending := i.pending + 1 })
        (fun _ => rfl) fun _ h => h).trans (pause _ (s.candidates hitBreakpoints) [])
      split
      · exact hreserve.trans (resumeWithFallback _ _ _)
      · exact hreserve

/-- The counters that were counted in a pause are compared with their limits. -/
theorem retireCounted (s : State) (p : ℕ) : Forward s (s.retireCounted p) := by
  unfold State.retireCounted
  split
  · exact refl s
  · refine Forward.trans ?_ (foldl limitCounted _ _)
    exact of_calm rfl rfl rfl rfl (.refl _) rfl (fun _ _ h => h) (.modify _ _ (fun _ => rfl) fun _ => rfl) List.prefix_rfl

/-- A capture that comes too late is dropped; another is resumed. -/
theorem captured (s : State) (p : ℕ) (captureError : Option JsString) (capture : PauseCapture.RawCapture) :
    Forward s (s.captured p captureError capture) := by
  unfold State.captured
  split
  · exact resumeWithFallback s p _
  · exact refl s

/-- A hit is counted and seen, and may be the last. -/
theorem countHit (s : State) (p o : ℕ) : Forward s (s.countHit p o) :=
  ((change s [o] (f := fun i => { i with hits := i.hits + 1 }) (fun _ => rfl) fun _ h => h).trans (see _ _)).trans
    (limitCounted _ o)

variable {lower : JsString → JsString} {config : PauseCapture.ManagerConfig}

/-- A candidate is skipped, fails, or is hit. -/
theorem processCandidate (captureError : Option JsString) (capture : PauseCapture.RawCapture) (p : ℕ) (s : State) (o : ℕ) :
    Forward s (s.processCandidate lower config captureError capture p o) := by
  rcases s.processCandidate_cases o p with h | ⟨probe, detail, h⟩ | ⟨_, -, -, -, -, -, h⟩
  · rw [h]
    exact refl s
  · rw [h]
    exact error s probe detail
  · rw [h]
    exact countHit s p o

/-- The pause is settled before its candidates have their turns. -/
theorem process (s : State) (p : ℕ) : Forward s (s.process lower config p) := by
  unfold State.process
  split
  · have hsettled (candidates : List ℕ) := (releasePending s candidates).trans (setStage _ p .settled)
    dsimp only
    split
    · exact hsettled _
    · exact (hsettled _).trans (foldl (processCandidate _ _ p) _ _)
  · exact refl s

/-- An installation is new, and takes the name of its probe. -/
theorem install (s : State) (probe : ProbeDefinition) (breakpointId : JsString) :
    Forward s (s.install probe breakpointId) where
  epoch := le_rfl
  suspended _ h := h
  stopped := id
  failed := id
  kept o i h := by
    refine ⟨i, ?_, rfl, id⟩
    show (s.installations ++ _)[o]? = _
    rw [List.getElem?_append_left (List.getElem?_eq_some_iff.mp h).1, h]
  length := by
    show _ ≤ (s.installations ++ _).length
    rw [List.length_append]
    exact Nat.le_add_right _ _
  named id o ho h := by
    have h : (s.installed.set probe.id s.installations.length).get? id = some o := h
    rw [JsMap.get?_set] at h
    split at h
    · -- the name that was given is that of the new installation
      exact absurd (Option.some.inj h) ho.ne'
    · exact h
  lasting := .refl _
  seen := List.prefix_append _ _

/-- A call fails at once, or waits for its breakpoint. -/
theorem ensureArmed (s : State) (probe : ProbeDefinition) (resolution : State.Resolution) :
    Forward s (s.ensureArmed probe resolution) := by
  unfold State.ensureArmed
  split
  · exact refl s
  · dsimp only
    split
    · exact error s _ _
    · exact error s _ _
    · exact of_quiet rfl rfl rfl rfl rfl rfl rfl List.prefix_rfl

theorem finishArm (s : State) (a : ℕ) (probeId : JsString) : Forward s (s.finishArm a probeId) :=
  of_quiet rfl rfl rfl rfl rfl rfl rfl List.prefix_rfl

/-- A breakpoint is there: the probe is installed, unless it is wanted no more. -/
theorem acquired (s : State) (a : ℕ) : Forward s (s.acquired a) := by
  unfold State.acquired
  split
  · split
    · exact finishArm s _ _
    · -- a probe that is wanted no more gives its breakpoint back
      split
      · exact of_quiet rfl rfl rfl rfl rfl rfl rfl List.prefix_rfl
      · exact (install s _ _).trans (finishArm _ _ _)
    · exact refl s
  · exact refl s

theorem released (s : State) (a : ℕ) : Forward s (s.released a) := by
  unfold State.released
  split
  · exact finishArm s _ _
  · exact refl s

/-- A new list of probes may raise the epoch. -/
theorem reconcile (s : State) (probes : List ProbeDefinition) : Forward s (s.reconcile probes) := by
  unfold State.reconcile
  split
  · exact refl s
  · -- only the epoch can change: a list that differs raises it
    refine ⟨?_, fun _ h => h, id, id, .refl _, le_rfl, fun _ _ _ h => h, .refl _, List.prefix_rfl⟩
    dsimp only
    split
    · exact Nat.le_add_right _ _
    · exact le_rfl

/-- One installed probe is looked at, and uninstalled if it is not listed. -/
theorem reconcileNext (s : State) (r : ℕ) : Forward s (s.reconcileNext r) := by
  have hset (reconciling : Reconciling) : Forward s (s.setReconciling r reconciling) :=
    of_quiet rfl rfl rfl rfl rfl rfl rfl List.prefix_rfl
  unfold State.reconcileNext
  split
  · dsimp only
    split
    · exact (hset _).trans (uninstall _ _)
    · exact hset _
  · exact of_quiet rfl rfl rfl rfl rfl rfl rfl List.prefix_rfl
  · exact refl s

/-- No step goes back. -/
theorem next (s : State) (e : Event) : Forward s (next lower config s e) := by
  cases e with
  | paused hitBreakpoints token => exact handlePaused s hitBreakpoints token
  | retireCounted p => exact retireCounted s p
  | captured p captureError capture => exact captured s p captureError capture
  | answered p error disconnectError => exact answered s p error disconnectError
  | process p => exact process s p
  | report => exact report s
  | retired o error => exact retired s o error
  | ensureArmed probe resolution => exact ensureArmed s probe resolution
  | acquired a => exact acquired s a
  | released a => exact released s a
  | registry e =>
    show Forward s (ite _ _ _)
    split
    · exact of_quiet rfl rfl rfl rfl rfl rfl rfl List.prefix_rfl
    · exact refl s
  | reconcile probes => exact reconcile s probes
  | reconcileNext r => exact reconcileNext s r
  | suspendAll detail => exact suspendAll s detail
  | rearm => exact rearm s
  | stop => exact stop s

/-- No run goes back. -/
theorem run (l : List Event) (s : State) : Forward s (l.foldl (NodeProbes.next lower config) s) := foldl next l s

end Forward

/-! ### What is seen of a step -/

/-- What is added to what was seen satisfies `q`. -/
def Adds (q : Seen → Prop) (s t : State) : Prop := ∃ l, t.seen = s.seen ++ l ∧ ∀ x ∈ l, q x

namespace Adds

variable {s t u : State} {q q' : Seen → Prop}

theorem refl (s : State) : Adds q s s := ⟨[], (List.append_nil _).symm, fun _ h => by cases h⟩

/-- Nothing new is seen. -/
theorem of_eq (h : t.seen = s.seen) : Adds q s t := ⟨[], by rw [h, List.append_nil], fun _ h => by cases h⟩

/-- What is said of the additions may be weakened. -/
theorem mono (h : Adds q s t) (hq : ∀ x, q x → q' x) : Adds q' s t := by
  obtain ⟨l, hseen, hl⟩ := h
  exact ⟨l, hseen, fun x hx => hq x (hl x hx)⟩

theorem trans (h : Adds q s t) (h' : Adds q t u) : Adds q s u := by
  obtain ⟨l, hseen, hl⟩ := h
  obtain ⟨l', hseen', hl'⟩ := h'
  refine ⟨l ++ l', by rw [hseen', hseen, List.append_assoc], fun x hx => ?_⟩
  rcases List.mem_append.mp hx with hx | hx
  · exact hl x hx
  · exact hl' x hx

theorem foldl {α : Type*} {f : State → α → State} (hf : ∀ s a, Adds q s (f s a)) (l : List α) (s : State) :
    Adds q s (l.foldl f s) :=
  foldl_rel refl trans hf l s

/-- One thing is seen. -/
theorem single {x : Seen} (h : t.seen = s.seen ++ [x]) (hx : q x) : Adds q s t :=
  ⟨[x], h, fun _ hy => List.mem_singleton.mp hy ▸ hx⟩

end Adds

/-- A status of a probe. -/
def Seen.IsStatus (x : Seen) : Prop := ∃ probeId status detail, x = .status probeId status detail

/-- What the pauses go through: a resume of the pause, or its answer. -/
def Seen.about (p : ℕ) : Seen → Bool
  | .resume pause | .answer pause _ => pause = p
  | _ => false

namespace State

variable {lower : JsString → JsString} {config : PauseCapture.ManagerConfig} {s : State} {o p : ℕ}

/-- Of a probe that is retired its status is seen. -/
theorem retireAtHitLimit_seen (s : State) (o : ℕ) : Adds Seen.IsStatus s (s.retireAtHitLimit o) := by
  unfold State.retireAtHitLimit
  split
  · exact .refl s
  · split
    · exact .refl s
    · exact .single rfl ⟨_, _, _, rfl⟩

theorem limitCounted_seen (s : State) (o : ℕ) : Adds Seen.IsStatus s (s.limitCounted o) := by
  unfold State.limitCounted
  split
  · exact s.retireAtHitLimit_seen o
  · exact .refl s

theorem uninstall_seen (s : State) (o : ℕ) : (s.uninstall o).seen = s.seen := by
  unfold State.uninstall
  split <;> rfl

/-- Errors go to the registry. -/
theorem errors_seen (probes : List ProbeDefinition) (detail : JsString) (s : State) :
    (probes.foldl (fun s probe => s.error probe detail) s).seen = s.seen := by
  induction probes generalizing s with
  | nil => rfl
  | cons probe probes ih => exact ih _

/-- At most the resume is seen. -/
theorem resumeWithFallback_seen (s : State) (p : ℕ) (k : OnResumed) :
    Adds (fun x => x = .resume p) s (s.resumeWithFallback p k) := by
  unfold State.resumeWithFallback
  split
  · exact .of_eq rfl
  · exact .single rfl rfl

theorem resumed_seen (s : State) (p : ℕ) (k : OnResumed) : (s.resumed p k).seen = s.seen := by
  rcases k with - | ⟨captureError, capture⟩ <;> rfl

/-- After an answer another resume may follow, or the end of the session. -/
theorem answered_seen (s : State) (p : ℕ) (error disconnectError : Option JsString) :
    Adds (fun x => x.about p = true ∨ x = .disconnect) s (s.answered p error disconnectError) := by
  rcases s.answered_cases p error disconnectError with h | ⟨_, k, -, -, h⟩
  · rw [h]
    exact .refl s
  · -- as in `Forward.answered`
    rcases h with ⟨-, h⟩ | ⟨_, -, -, h⟩ | ⟨_, _, -, -, h⟩
    · rw [h]
      exact .single (resumed_seen _ p k) (.inl (decide_eq_true rfl))
    · rw [h]
      refine ⟨[.answer p false, .resume p], rfl, fun x hx => .inl ?_⟩
      rcases List.mem_pair.mp hx with rfl | rfl <;> exact decide_eq_true rfl
    · rw [h]
      unfold State.handleResumeFailure
      dsimp only
      split
      · exact .single rfl (.inl (decide_eq_true rfl))
      · refine ⟨[.answer p false, .disconnect], List.append_assoc _ _ _, fun x hx => ?_⟩
        rcases List.mem_pair.mp hx with rfl | rfl
        · exact .inl (decide_eq_true rfl)
        · exact .inr rfl

/-- A new pause shows its own resume, and the counters it counts over the budget. -/
theorem handlePaused_seen (s : State) (hitBreakpoints : List JsString) (token : Bool) :
    Adds (fun x => x = .resume s.pauses.length ∨ ∃ o, x = .counted o s.pauses.length) s
      (s.handlePaused hitBreakpoints token) := by
  have hresume (t : State) (k : OnResumed) :
      Adds (fun x => x = .resume s.pauses.length ∨ ∃ o, x = .counted o s.pauses.length) t
        (t.resumeWithFallback s.pauses.length k) := (t.resumeWithFallback_seen s.pauses.length k).mono fun _ h => .inl h
  unfold State.handlePaused
  dsimp only
  split
  · exact .trans (.of_eq rfl) (hresume (s.pause [] []) .nothing)
  · split
    · refine .trans ?_ (hresume _ .nothing)
      -- the counters are seen before the resume is
      refine ⟨_, rfl, fun x hx => .inr ?_⟩
      obtain ⟨o, -, rfl⟩ := List.mem_map.mp hx
      exact ⟨o, rfl⟩
    · split
      · exact .trans (.of_eq rfl) (hresume _ _)
      · exact .of_eq rfl

/-- A candidate shows its hit, and its status when that was the last. -/
theorem processCandidate_seen (captureError : Option JsString) (capture : PauseCapture.RawCapture) (p : ℕ) (s : State)
    (o : ℕ) :
    Adds (fun x => x = .hit o p ∨ x.IsStatus) s (s.processCandidate lower config captureError capture p o) := by
  rcases s.processCandidate_cases o p with h | ⟨probe, detail, h⟩ | ⟨_, -, -, -, -, -, h⟩
  · rw [h]
    exact .refl s
  · rw [h]
    exact .of_eq rfl
  · rw [h]
    -- the hit comes first, then the status of a probe at its limit
    exact .trans (.single rfl (.inl rfl)) ((limitCounted_seen _ o).mono fun _ h => .inr h)

/-- What is processed shows the hits of the pause. -/
theorem process_seen (s : State) (p : ℕ) :
    Adds (fun x => (∃ o, x = .hit o p) ∨ x.IsStatus) s (s.process lower config p) := by
  unfold State.process
  split
  · dsimp only
    split
    · exact .of_eq rfl
    · refine .trans (.of_eq rfl) (.foldl (fun s o => ?_) _ _)
      exact (processCandidate_seen _ _ p s o).mono fun x hx => hx.imp_left fun h => ⟨o, h⟩
  · exact .refl s

/-- An installation shows the status of its probe. -/
theorem acquired_seen (s : State) (a : ℕ) : Adds Seen.IsStatus s (s.acquired a) := by
  unfold State.acquired
  split
  · split
    · exact .of_eq rfl
    · split
      · exact .of_eq rfl
      · exact .single rfl ⟨_, _, _, rfl⟩
    · exact .refl s
  · exact .refl s

/-- A suspension shows the statuses of the probes. -/
theorem suspendAll_seen (s : State) (detail : JsString) : Adds Seen.IsStatus s (s.suspendAll detail) := by
  unfold State.suspendAll
  split
  · exact .refl s
  · refine ⟨_, rfl, fun x hx => ?_⟩
    obtain ⟨probe, -, rfl⟩ := List.mem_map.mp hx
    exact ⟨_, _, _, rfl⟩

end State

/-- What an event can show. -/
def Event.Shows (s : State) (x : Seen) : Event → Prop
  | .paused _ _ => x = .resume s.pauses.length ∨ ∃ o, x = .counted o s.pauses.length
  | .captured p _ _ => x = .resume p
  | .answered p _ _ => x.about p = true ∨ x = .disconnect
  | .process p => (∃ o, x = .hit o p) ∨ x.IsStatus
  | .retireCounted _ | .acquired _ | .suspendAll _ => x.IsStatus
  | _ => False

/-- A step shows nothing but what its event can. -/
theorem next_seen (lower : JsString → JsString) (config : PauseCapture.ManagerConfig) (s : State) (e : Event) :
    Adds (fun x => e.Shows s x) s (next lower config s e) := by
  cases e with
  | paused hitBreakpoints token => exact s.handlePaused_seen hitBreakpoints token
  | retireCounted p =>
    show Adds Seen.IsStatus s (s.retireCounted p)
    unfold State.retireCounted
    split
    · exact .refl s
    · exact .trans (.of_eq rfl) (.foldl State.limitCounted_seen _ _)
  | captured p captureError capture =>
    show Adds (fun x => x = .resume p) s (s.captured p captureError capture)
    unfold State.captured
    split
    · exact s.resumeWithFallback_seen p _
    · exact .refl s
  | answered p error disconnectError => exact s.answered_seen p error disconnectError
  | process p => exact s.process_seen p
  | report =>
    refine .of_eq ?_
    show s.report.seen = s.seen
    unfold State.report
    split
    · rfl
    · split
      · rfl
      · exact State.errors_seen _ _ _
  | retired o error =>
    refine .of_eq ?_
    show (s.retired o error).seen = s.seen
    unfold State.retired
    dsimp only
    split
    · rfl
    · split <;> rfl
  | ensureArmed probe resolution =>
    refine .of_eq ?_
    show (s.ensureArmed probe resolution).seen = s.seen
    unfold State.ensureArmed
    split
    · rfl
    · dsimp only
      split <;> rfl
  | acquired a => exact s.acquired_seen a
  | released a =>
    refine .of_eq ?_
    show (s.released a).seen = s.seen
    unfold State.released
    split <;> rfl
  | registry e =>
    refine .of_eq ?_
    show (ite _ _ _ : State).seen = s.seen
    split <;> rfl
  | reconcile probes =>
    refine .of_eq ?_
    show (s.reconcile probes).seen = s.seen
    unfold State.reconcile
    split <;> rfl
  | reconcileNext r =>
    refine .of_eq ?_
    show (s.reconcileNext r).seen = s.seen
    unfold State.reconcileNext
    split
    · dsimp only
      split
      · exact State.uninstall_seen _ _
      · rfl
    · rfl
    · rfl
  | suspendAll detail => exact s.suspendAll_seen detail
  | rearm =>
    refine .of_eq ?_
    show s.rearm.seen = s.seen
    unfold State.rearm
    split <;> rfl
  | stop =>
    refine .of_eq ?_
    show s.stop.seen = s.seen
    unfold State.stop
    split <;> rfl

/-! ### Processing -/

/-- What `process` does: nothing, it only settles the pause, or every candidate has its turn. -/
theorem State.process_cases (lower : JsString → JsString) (config : PauseCapture.ManagerConfig) (s : State) (p : ℕ) :
    s.process lower config p = s ∨
      ∃ pause captureError capture, s.pauses[p]? = some pause ∧ pause.stage = .immediate captureError capture ∧
        (s.process lower config p = (s.releasePending pause.candidates).setStage p .settled ∨
          s.stopped = false ∧ s.suspended = false ∧ s.inspectorFailed = false ∧ pause.captureEpoch = s.epoch ∧
            s.process lower config p = pause.candidates.foldl (State.processCandidate lower config captureError capture p)
              ((s.releasePending pause.candidates).setStage p .settled)) := by
  rw [State.process]
  rcases hp : s.pauses[p]? with - | ⟨candidates, captureEpoch, stage, counted⟩
  · exact .inl rfl
  · rcases stage with - | k | ⟨firstError, k⟩ | ⟨captureError, capture⟩ | -
    · exact .inl rfl
    · exact .inl rfl
    · exact .inl rfl
    · -- only a pause that `setImmediate` has is processed
      refine .inr ⟨_, captureError, capture, rfl, rfl, ?_⟩
      dsimp only
      split
      · exact .inl rfl
      · rename_i hworks
        have hworks : ((s.stopped = false ∧ s.suspended = false) ∧ s.inspectorFailed = false) ∧ captureEpoch = s.epoch := by
          simpa [State.releasePending, State.change, State.setStage] using hworks
        exact .inr ⟨hworks.1.1.1, hworks.1.1.2, hworks.1.2, hworks.2, rfl⟩
    · exact .inl rfl

end NodeProbes
