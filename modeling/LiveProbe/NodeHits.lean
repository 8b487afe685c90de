/-
LiveProbe/NodeHits.lean

The hits that the Node agent counts from captures: the callback of `setImmediate`
in `#resumeAndProcess`, and `#processHit`, of `probe-manager.ts`.

Much can happen between a pause and the processing of its capture.  The epoch,
the flags and the table of installed probes are looked at once, at the end.  As
every step goes `Forward`, that is enough: what counts a hit was installed from
the pause on, and no suspension and no change of the probes came between.
-/
import LiveProbe.NodeResumes

open JsString

namespace NodeProbes

/-! ### What is processed -/

namespace State

variable {lower : JsString → JsString} {config : PauseCapture.ManagerConfig} {s t : State} {o p : ℕ}
  {captureError : Option JsString} {capture : PauseCapture.RawCapture}

/-- Nothing of the kind was added. -/
theorem count_of_adds {q : Seen → Prop} {x : Seen} (h : Adds q s t) (hx : ¬ q x) : t.seen.count x = s.seen.count x := by
  obtain ⟨l, hseen, hl⟩ := h
  have hzero : l.count x = 0 := List.count_eq_zero.mpr fun hmem => hx (hl x hmem)
  rw [hseen, List.count_append, hzero, Nat.add_zero]

/-- What a hit of a candidate takes: it is the one that was installed and is still,
and its conditions hold of the capture. -/
structure Hit (lower : JsString → JsString) (config : PauseCapture.ManagerConfig) (s : State) (o : ℕ)
    (captureError : Option JsString) (capture : PauseCapture.RawCapture) (i : InstalledProbe) : Prop where
  installation : s.installations[o]? = some i
  active : i.active = true
  named : s.installed.get? i.definition.id = some o
  intact : captureError = none
  passes : verdict lower config i.definition capture = .hit

/-- The turn of another candidate adds no hit of this one. -/
theorem processCandidate_count_of_ne {o' : ℕ} (h : o' ≠ o) :
    (s.processCandidate lower config captureError capture p o').seen.count (.hit o p) = s.seen.count (.hit o p) := by
  refine count_of_adds (processCandidate_seen captureError capture p s o') ?_
  rintro (heq | ⟨_, _, _, heq⟩)
  · cases heq
    exact h rfl
  · cases heq

/-- The turn of a candidate adds one hit of it, or none. -/
theorem processCandidate_count (s : State) (o p : ℕ) :
    (s.processCandidate lower config captureError capture p o).seen.count (.hit o p) = s.seen.count (.hit o p) ∨
      (s.processCandidate lower config captureError capture p o).seen.count (.hit o p) = s.seen.count (.hit o p) + 1 ∧
        ∃ i, s.Hit lower config o captureError capture i := by
  rcases s.processCandidate_cases o p with h | ⟨probe, detail, h⟩ | ⟨i, hi, hactive, hname, herror, hverdict, h⟩
  · exact .inl (by rw [h])
  · exact .inl (by rw [h]; rfl)
  · refine .inr ⟨?_, i, hi, hactive, hname, herror, hverdict⟩
    have hlimit := count_of_adds (x := .hit o p)
      (limitCounted_seen ((s.change [o] fun i => { i with hits := i.hits + 1 }).see [.hit o p]) o)
      (by rintro ⟨_, _, _, heq⟩; cases heq)
    rw [h]
    refine hlimit.trans ?_
    show (s.seen ++ [Seen.hit o p]).count (.hit o p) = _
    rw [List.count_append, List.count_singleton_self]

theorem processAll_count {candidates : List ℕ} (hnodup : candidates.Nodup) (s : State) (p : ℕ) :
    (candidates.foldl (processCandidate lower config captureError capture p) s).seen.count (.hit o p) =
        s.seen.count (.hit o p) ∨
      (candidates.foldl (processCandidate lower config captureError capture p) s).seen.count (.hit o p) =
          s.seen.count (.hit o p) + 1 ∧
        o ∈ candidates ∧ ∃ i, s.Hit lower config o captureError capture i := by
  induction candidates generalizing s with
  | nil => exact .inl rfl
  | cons o' candidates ih =>
    obtain ⟨ho', hrest⟩ := List.nodup_cons.mp hnodup
    by_cases h : o' = o
    · subst h
      have hafter := ih hrest (s.processCandidate lower config captureError capture p o')
      rw [List.foldl_cons]
      rcases hafter with hafter | ⟨-, hmem, -⟩
      · rw [hafter]
        exact (processCandidate_count s o' p).imp_right fun ⟨hcount, hhit⟩ => ⟨hcount, List.mem_cons_self, hhit⟩
      · exact absurd hmem ho'
    · have hafter := ih hrest (s.processCandidate lower config captureError capture p o')
      rw [List.foldl_cons]
      rw [processCandidate_count_of_ne h] at hafter
      refine hafter.imp_right fun ⟨hcount, hmem, i, hhit⟩ => ⟨hcount, List.mem_cons_of_mem o' hmem, i, ?_⟩
      -- what another candidate's turn leaves of this one was there before
      have hsame : (s.processCandidate lower config captureError capture p o').installations[o]? =
          s.installations[o]? := processCandidate_installations (Ne.symm h) p
      have hi : s.installations[o]? = some i := hsame ▸ hhit.installation
      exact ⟨hi, hhit.active, (Forward.processCandidate captureError capture p s o').named _ o
        (List.getElem?_eq_some_iff.mp hi).1 hhit.named, hhit.intact, hhit.passes⟩

/-- A hit is added: its capture is intact and of this epoch, and the manager is at work. -/
theorem process_hit (hs : s.Sound []) (h : (s.process lower config p).seen.count (.hit o p) ≠ s.seen.count (.hit o p)) :
    ∃ pause capture i, s.pauses[p]? = some pause ∧ pause.stage = .immediate none capture ∧ pause.captureEpoch = s.epoch ∧
      s.suspended = false ∧ s.stopped = false ∧ s.inspectorFailed = false ∧ o ∈ pause.candidates ∧
      s.installations[o]? = some i ∧ i.active = true ∧ s.installed.get? i.definition.id = some o ∧
      verdict lower config i.definition capture = .hit ∧
      (s.process lower config p).seen.count (.hit o p) = s.seen.count (.hit o p) + 1 := by
  rcases s.process_cases lower config p with heq | ⟨pause, captureError, capture, hp, hstage, heq⟩
  · rw [heq] at h
    exact absurd rfl h
  · rcases heq with heq | ⟨hstopped, hsuspended, hfailed, hepoch, heq⟩
    · rw [heq] at h
      exact absurd rfl h
    · have hnodup := (hs.fit pause (List.mem_of_getElem? hp)).nodup
      rw [heq] at h ⊢
      rcases processAll_count hnodup ((s.releasePending pause.candidates).setStage p .settled) p with
        hsame | ⟨hcount, hmem, i, hhit⟩
      · exact absurd hsame h
      · -- the installation before its reservation was released
        have hi := hhit.installation
        rw [settle_installations] at hi
        obtain ⟨i', hi', rfl⟩ := Option.map_eq_some_iff.mp hi
        rw [if_pos hmem] at hhit
        rw [hhit.intact] at hstage
        exact ⟨pause, capture, i', hp, hstage, hepoch, hsuspended, hstopped, hfailed, hmem, hi', hhit.active, hhit.named,
          hhit.passes, hcount⟩

/-- Only the processing of a pause adds a hit of it. -/
theorem process_of_added {e : Event} (h : (next lower config s e).seen.count (.hit o p) ≠ s.seen.count (.hit o p)) :
    e = .process p := by
  by_contra hne
  refine h (count_of_adds (next_seen lower config s e) fun hshows => ?_)
  cases e with
  | paused => rcases hshows with hshows | ⟨_, hshows⟩ <;> cases hshows
  | captured => cases hshows
  | answered => rcases hshows with hshows | hshows <;> cases hshows
  | process q =>
    rcases hshows with ⟨_, hshows⟩ | ⟨_, _, _, hshows⟩
    · cases hshows
      exact hne rfl
    · cases hshows
  | retireCounted | acquired | suspendAll =>
    obtain ⟨_, _, _, hshows⟩ := hshows
    cases hshows
  | report | retired | ensureArmed | released | registry | reconcile | reconcileNext | rearm | stop => exact hshows

/-! ### From the pause on -/

/-- The pause of a step has candidates of its state only, and its epoch. -/
theorem handlePaused_last (s : State) (hitBreakpoints : List JsString) (token : Bool) :
    ∃ pause, (s.handlePaused hitBreakpoints token).pauses[s.pauses.length]? = some pause ∧
      pause.candidates ⊆ s.candidates hitBreakpoints ∧ pause.captureEpoch = s.epoch := by
  -- the call of the inspector keeps both
  have hresume : ∀ (t : State) (begun : Pause), t.pauses[s.pauses.length]? = some begun →
      begun.candidates ⊆ s.candidates hitBreakpoints → begun.captureEpoch = s.epoch → ∀ k,
      ∃ pause, (t.resumeWithFallback s.pauses.length k).pauses[s.pauses.length]? = some pause ∧
        pause.candidates ⊆ s.candidates hitBreakpoints ∧ pause.captureEpoch = s.epoch := by
    intro t begun hbegun hsub hepoch k
    obtain ⟨pause, hpause, hcandidates, hcapture⟩ := (Forward.resumeWithFallback t s.pauses.length k).lasting _ _ hbegun
    exact ⟨pause, hpause, hcandidates ▸ hsub, hcapture.trans hepoch⟩
  unfold State.handlePaused
  dsimp only
  split
  · exact hresume _ _ (pause_last s [] []) (List.nil_subset _) rfl _
  · split
    · exact hresume _ _ (pause_last (s.overBudget _) [] _) (List.nil_subset _) rfl _
    · split
      · exact hresume _ _ (pause_last (s.change _ _) _ []) (List.Subset.refl _) rfl _
      · exact ⟨_, pause_last (s.change _ _) _ [], List.Subset.refl _, rfl⟩

/-- The installation is installed in the epoch, and the manager is at work. -/
structure Stands (s : State) (epoch o : ℕ) : Prop where
  epoch : s.epoch = epoch
  suspended : s.suspended = false
  stopped : s.stopped = false
  failed : s.inspectorFailed = false
  installed : ∃ i, s.installations[o]? = some i ∧ i.active = true ∧ s.installed.get? i.definition.id = some o

/-- What stands at both ends stood in between. -/
theorem Stands.between {u : State} (ht : t.Stands s.epoch o) (hsuspended : s.suspended = false)
    (ho : o < s.installations.length) (hsu : Forward s u) (hut : Forward u t) (hu : u.Sound []) : u.Stands s.epoch o := by
  have hepoch : u.epoch = s.epoch := le_antisymm (ht.epoch ▸ hut.epoch) hsu.epoch
  obtain ⟨i, -, -, hname⟩ := ht.installed
  have hname' := hut.named _ o (ho.trans_le hsu.length) hname
  obtain ⟨i', hi', hactive, hid⟩ := hu.named _ o hname'
  exact ⟨hepoch, hsu.suspended hepoch hsuspended, hut.stopped ht.stopped, hut.failed ht.failed, i', hi', hactive,
    hid.symm ▸ hname'⟩

end State

variable {lower : JsString → JsString} {config : PauseCapture.ManagerConfig} {s : State} {o : ℕ}

def run (lower : JsString → JsString) (config : PauseCapture.ManagerConfig) (s : State) (l : List Event) : State :=
  l.foldl (next lower config) s

theorem Reachable.run (h : Reachable lower config s) (l : List Event) : Reachable lower config (run lower config s l) :=
  Reached.foldl h (.of_forall (fun _ _ _ => trivial) s)

/-- **A hit that is counted is one of what stood.**  When a capture adds a hit of
an installation, that installation was a candidate of the pause, and from the
pause to the processing it was installed and active, the manager was neither
suspended nor stopped nor failed, and the epoch was the same.  The process had
gone on, the probe's conditions hold of the capture, and the pause counts the
installation this once. -/
theorem hit_stands (h : Reachable lower config s) {hitBreakpoints : List JsString} {token : Bool} {l : List Event} {e : Event}
    (hadded : (run lower config s (.paused hitBreakpoints token :: l ++ [e])).seen.count (.hit o s.pauses.length) ≠
      (run lower config s (.paused hitBreakpoints token :: l)).seen.count (.hit o s.pauses.length)) :
    e = .process s.pauses.length ∧ o ∈ s.candidates hitBreakpoints ∧
      (∀ m, m <+: l → (run lower config s (.paused hitBreakpoints token :: m)).Stands s.epoch o) ∧
      Resumed s.pauses.length ((run lower config s (.paused hitBreakpoints token :: l)).talk s.pauses.length) ∧
      (∃ pause capture i,
        (run lower config s (.paused hitBreakpoints token :: l)).pauses[s.pauses.length]? = some pause ∧
        pause.stage = .immediate none capture ∧
        (run lower config s (.paused hitBreakpoints token :: l)).installations[o]? = some i ∧
        verdict lower config i.definition capture = .hit) ∧
      (run lower config s (.paused hitBreakpoints token :: l ++ [e])).seen.count (.hit o s.pauses.length) = 1 := by
  have hlast : run lower config s (.paused hitBreakpoints token :: l ++ [e]) =
      next lower config (run lower config s (.paused hitBreakpoints token :: l)) e := by
    rw [run, List.foldl_append]
    rfl
  have ht : Reachable lower config (run lower config s (.paused hitBreakpoints token :: l)) := h.run _
  rw [hlast] at hadded ⊢
  obtain rfl := State.process_of_added hadded
  obtain ⟨pause, capture, i, hp, hstage, hepoch, hsuspended, hstopped, hfailed, hmem, hi, hactive, hname, hverdict, hcount⟩ :=
    State.process_hit ht.sound hadded
  -- the pause is the one that the first step has begun
  obtain ⟨begun, hbegun, hsub, hcapture⟩ := s.handlePaused_last hitBreakpoints token
  have hrest : Forward (s.handlePaused hitBreakpoints token) (run lower config s (.paused hitBreakpoints token :: l)) :=
    Forward.run l _
  obtain ⟨pause', hp', hcandidates, hcapture'⟩ := hrest.lasting _ _ hbegun
  rw [hp] at hp'
  cases hp'
  have ho : o ∈ s.candidates hitBreakpoints := hsub (hcandidates ▸ hmem)
  obtain ⟨_, hio, -, hbefore, -, -⟩ := State.takesHit_iff.mp (State.mem_candidates ho).2
  have hstands : (run lower config s (.paused hitBreakpoints token :: l)).Stands s.epoch o :=
    ⟨hepoch.symm.trans (hcapture'.trans hcapture), hsuspended, hstopped, hfailed, i, hi, hactive, hname⟩
  have htold := ht.told.stage _ pause hp
  rw [hstage] at htold
  refine ⟨rfl, ho, fun m hm => ?_, htold, ⟨pause, capture, i, hp, hstage, hi, hverdict⟩, ?_⟩
  · obtain ⟨l', rfl⟩ := hm
    refine hstands.between hbefore (List.getElem?_eq_some_iff.mp hio).1 (Forward.run _ s) ?_ (h.run _).sound
    have hsplit : run lower config s (.paused hitBreakpoints token :: (m ++ l')) =
        run lower config (run lower config s (.paused hitBreakpoints token :: m)) l' := by
      rw [run, ← List.cons_append, List.foldl_append]
      rfl
    rw [hsplit]
    exact Forward.run l' _
  · -- a pause that is not settled has no hits yet
    have hzero : (run lower config s (.paused hitBreakpoints token :: l)).seen.count (.hit o s.pauses.length) = 0 := by
      refine List.count_eq_zero.mpr fun hseen => ?_
      obtain ⟨pause', hp', hsettled, -⟩ := ht.told.processed o _ hseen
      rw [hp] at hp'
      cases hp'
      rw [hsettled] at hstage
      cases hstage
    show (State.process lower config _ _).seen.count _ = 1
    rw [hcount, hzero]

theorem counting_stands :
    (run id PauseCapture.defaultManagerConfig (run id PauseCapture.defaultManagerConfig {} arming)
        [.paused [js "b"] true, .answered 0 none none]).Stands 1 0 ∧
      (run id PauseCapture.defaultManagerConfig (run id PauseCapture.defaultManagerConfig {} arming)
        [.paused [js "b"] true, .answered 0 none none, .process 0]).seen.count (.hit 0 0) = 1 := by
  have h : Reachable id PauseCapture.defaultManagerConfig (run id PauseCapture.defaultManagerConfig {} arming) :=
    Reachable.run .init arming
  have hadded : (run id PauseCapture.defaultManagerConfig (run id PauseCapture.defaultManagerConfig {} arming)
        (.paused [js "b"] true :: [.answered 0 none none] ++ [.process 0])).seen.count (.hit 0 0) ≠
      (run id PauseCapture.defaultManagerConfig (run id PauseCapture.defaultManagerConfig {} arming)
        (.paused [js "b"] true :: [.answered 0 none none])).seen.count (.hit 0 0) := by
    decide
  obtain ⟨-, -, hstands, -, -, hcount⟩ := hit_stands h hadded
  exact ⟨hstands _ (List.prefix_refl _), hcount⟩

end NodeProbes
