/-
LiveProbe/NodeResumes.lean

That the Node agent lets a paused process go on: `#resumeWithFallback` and
`#handleResumeFailure` of `probe-manager.ts`.

What is said between the manager and the inspector about one pause is told by
the stage of the pause (`Stage.Told`): a resume, a second one exactly when the
first has failed, and nothing more.  A pause comes to its end with a resume that
succeeded, or the inspector has failed.  Then it was disconnected, once, and
nothing is armed or counted any more.
-/
import LiveProbe.NodePauses

open JsString

namespace NodeProbes

/-! ### What is said about a pause -/

/-- The process goes on, at the first resume or at the second. -/
inductive Resumed (p : ℕ) : List Seen → Prop
  | first : Resumed p [.resume p, .answer p true]
  | second : Resumed p [.resume p, .answer p false, .resume p, .answer p true]

/-- What a stage tells of a pause. -/
def Stage.Told (failed : Bool) (p : ℕ) (talk : List Seen) : Stage → Prop
  | .capturing => talk = []
  | .resuming _ => talk = [.resume p]
  | .retrying _ _ => talk = [.resume p, .answer p false, .resume p]
  | .immediate _ _ => Resumed p talk
  | .settled => Resumed p talk ∨
      failed = true ∧ (talk = [] ∨ talk = [.resume p, .answer p false, .resume p, .answer p false])

/-- A failure of the inspector is told by settled pauses only. -/
theorem Stage.Told.mono {failed failed' : Bool} {p : ℕ} {talk : List Seen} {stage : Stage}
    (h : stage.Told failed p talk) (hfailed : failed = true → failed' = true) : stage.Told failed' p talk := by
  cases stage with
  | settled => exact h.imp_right fun h => ⟨hfailed h.1, h.2⟩
  | capturing | resuming | retrying | immediate => exact h

namespace State

variable {s t : State} {p : ℕ} {pause : Pause} {stage : Stage} {k : OnResumed} {l : List Seen}

def talk (s : State) (p : ℕ) : List Seen := s.seen.filter (Seen.about p)

theorem talk_append (h : t.seen = s.seen ++ l) (p : ℕ) : t.talk p = s.talk p ++ l.filter (Seen.about p) := by
  rw [talk, h, List.filter_append]
  rfl

/-- Nothing was said about the pause. -/
theorem talk_eq (h : t.seen = s.seen ++ l) (hl : ∀ x ∈ l, x.about p = false) : t.talk p = s.talk p := by
  have hnone : l.filter (Seen.about p) = [] := List.filter_eq_nil_iff.mpr fun x hx => by simp [hl x hx]
  rw [talk_append h, hnone, List.append_nil]

structure Told (s : State) : Prop where
  stage : ∀ (p : ℕ) (pause : Pause), s.pauses[p]? = some pause → pause.stage.Told s.inspectorFailed p (s.talk p)
  fresh : ∀ p, s.pauses.length ≤ p → s.talk p = []
  /-- what was captured is processed once the process has gone on -/
  processed : ∀ o p, Seen.hit o p ∈ s.seen →
    ∃ pause, s.pauses[p]? = some pause ∧ pause.stage = .settled ∧ Resumed p (s.talk p)
  disconnected : s.seen.count .disconnect = if s.inspectorFailed then 1 else 0

theorem Told.init : Told {} where
  stage p pause h := by simp at h
  fresh p _ := rfl
  processed o p h := by cases h
  disconnected := rfl

/-- Statuses are seen, and no pause moves. -/
theorem Told.still (hs : s.Told) (hpauses : ∀ p : ℕ, (t.pauses[p]?).map (·.stage) = (s.pauses[p]?).map (·.stage))
    (hfailed : t.inspectorFailed = s.inspectorFailed) (hseen : Adds Seen.IsStatus s t) : t.Told := by
  obtain ⟨l, hseen, hl⟩ := hseen
  have htalk (p : ℕ) : t.talk p = s.talk p := talk_eq hseen fun x hx => by
    obtain ⟨_, _, _, rfl⟩ := hl x hx
    rfl
  have hstage : ∀ (p : ℕ) (pause : Pause), t.pauses[p]? = some pause →
      ∃ pause', s.pauses[p]? = some pause' ∧ pause'.stage = pause.stage := by
    intro p pause hp
    have h := hpauses p
    rw [hp] at h
    obtain ⟨pause', hp', hstage⟩ := Option.map_eq_some_iff.mp h.symm
    exact ⟨pause', hp', hstage⟩
  refine ⟨fun p pause hp => ?_, fun p hlen => ?_, fun o p hmem => ?_, ?_⟩
  · obtain ⟨pause', hp', hsame⟩ := hstage p pause hp
    rw [htalk, hfailed, ← hsame]
    exact hs.stage p pause' hp'
  · rw [htalk]
    refine hs.fresh p ?_
    have h := hpauses p
    rw [List.getElem?_eq_none hlen] at h
    exact List.getElem?_eq_none_iff.mp (Option.map_eq_none_iff.mp h.symm)
  · rw [hseen] at hmem
    rcases List.mem_append.mp hmem with hmem | hmem
    · obtain ⟨pause, hp, hsettled, hresumed⟩ := hs.processed o p hmem
      have h := hpauses p
      rw [hp] at h
      obtain ⟨pause', hp', hsame⟩ := Option.map_eq_some_iff.mp h
      exact ⟨pause', hp', hsame.trans hsettled, (htalk p).symm ▸ hresumed⟩
    · obtain ⟨_, _, _, h⟩ := hl _ hmem
      cases h
  · have hzero : l.count .disconnect = 0 := by
      refine List.count_eq_zero.mpr fun h => ?_
      obtain ⟨_, _, _, h⟩ := hl _ h
      cases h
    rw [hseen, List.count_append, hzero, hfailed]
    exact hs.disconnected

theorem setStage_self (hp : s.pauses[p]? = some pause) (stage : Stage) :
    (s.setStage p stage).pauses[p]? = some { pause with stage := stage } := by
  show (s.pauses.modify p _)[p]? = _
  rw [List.getElem?_modify, hp]
  simp

theorem setStage_of_ne {q : ℕ} (h : q ≠ p) (stage : Stage) : (s.setStage p stage).pauses[q]? = s.pauses[q]? := by
  show (s.pauses.modify p _)[q]? = _
  rw [List.getElem?_modify]
  simp [Ne.symm h]

/-- What is said and counted is about one pause, which moves. -/
theorem Told.move (hs : s.Told) (stage : Stage) (hp : s.pauses[p]? = some pause) (hlive : pause.stage.live = true)
    (hpauses : t.pauses = (s.setStage p stage).pauses) (hseen : t.seen = s.seen ++ l)
    (hother : ∀ x ∈ l, ∀ q ≠ p, x.about q = false ∧ ∀ o, x ≠ .hit o q)
    (hhit : ∀ o, Seen.hit o p ∈ l → stage = .settled ∧ Resumed p (t.talk p))
    (hfailed : s.inspectorFailed = true → t.inspectorFailed = true) (hstage : stage.Told t.inspectorFailed p (t.talk p))
    (hdisconnected : t.seen.count .disconnect = if t.inspectorFailed then 1 else 0) : t.Told := by
  have htalk {q : ℕ} (hq : q ≠ p) : t.talk q = s.talk q := talk_eq hseen fun x hx => (hother x hx q hq).1
  have hlt := (List.getElem?_eq_some_iff.mp hp).1
  refine ⟨fun q pause' hq => ?_, fun q hlen => ?_, fun o q hmem => ?_, hdisconnected⟩
  · rw [hpauses] at hq
    by_cases h : q = p
    · subst h
      rw [setStage_self hp] at hq
      cases hq
      exact hstage
    · rw [setStage_of_ne h] at hq
      rw [htalk h]
      exact (hs.stage q pause' hq).mono hfailed
  · have hlen : s.pauses.length ≤ q := by
      rw [hpauses] at hlen
      have hsame : (s.setStage p stage).pauses.length = s.pauses.length := List.length_modify ..
      omega
    rw [htalk (by omega)]
    exact hs.fresh q hlen
  · rw [hpauses]
    rw [hseen] at hmem
    by_cases h : q = p
    · subst h
      rcases List.mem_append.mp hmem with hmem | hmem
      · -- a pause that is not settled has no hits
        obtain ⟨pause', hp', hsettled, -⟩ := hs.processed o q hmem
        rw [hp] at hp'
        cases hp'
        rw [hsettled] at hlive
        cases hlive
      · obtain ⟨hsettled, hresumed⟩ := hhit o hmem
        exact ⟨_, setStage_self hp stage, hsettled, hresumed⟩
    · rcases List.mem_append.mp hmem with hmem | hmem
      · obtain ⟨pause', hq, hsettled, hresumed⟩ := hs.processed o q hmem
        exact ⟨pause', (setStage_of_ne h stage).trans hq, hsettled, (htalk h).symm ▸ hresumed⟩
      · exact absurd rfl ((hother _ hmem q h).2 o)

/-! ### Steps -/

theorem about_other {x : Seen} (h : x.about p = true) : ∀ q ≠ p, x.about q = false ∧ ∀ o, x ≠ .hit o q := by
  intro q hq
  cases x with
  | resume r | answer r ok =>
    obtain rfl := of_decide_eq_true h
    exact ⟨decide_eq_false (Ne.symm hq), fun o h => by cases h⟩
  | disconnect | hit | counted | status => cases h

/-- The first resume of a pause, unless the inspector has failed. -/
theorem Told.resumeWithFallback (hs : s.Told) (hp : s.pauses[p]? = some pause) (hcapturing : pause.stage = .capturing)
    (k : OnResumed) : (s.resumeWithFallback p k).Told := by
  have htold := hs.stage p pause hp
  rw [hcapturing] at htold
  have htold : s.talk p = [] := htold
  unfold State.resumeWithFallback
  split
  · rename_i hfailed
    refine hs.move (l := []) .settled hp (by rw [hcapturing]; rfl) rfl (List.append_nil _).symm
      (fun _ h => by cases h) (fun _ h => by cases h) id (.inr ⟨hfailed, .inl htold⟩) hs.disconnected
  · refine hs.move (l := [.resume p]) (.resuming k) hp (by rw [hcapturing]; rfl) rfl rfl (fun x hx => ?_)
      (fun o h => ?_) id ?_ ?_
    · obtain rfl := List.mem_singleton.mp hx
      exact about_other (decide_eq_true rfl)
    · cases List.mem_singleton.mp h
    · show talk _ p = _
      rw [talk_append (t := (s.see [.resume p]).setStage p (.resuming k)) (l := [.resume p]) rfl, htold]
      simp [Seen.about]
    · show (s.seen ++ [Seen.resume p]).count .disconnect = _
      rw [List.count_append, hs.disconnected]
      rfl

/-- A pause begins, and nothing is said about it yet. -/
theorem Told.begun (hs : s.Told) {candidates counted : List ℕ} {epoch : ℕ}
    (hpauses : t.pauses = s.pauses ++ [⟨candidates, epoch, .capturing, counted⟩]) (hseen : t.seen = s.seen ++ l)
    (hl : ∀ x ∈ l, ∃ o q, x = .counted o q) (hfailed : t.inspectorFailed = s.inspectorFailed) : t.Told := by
  have htalk (q : ℕ) : t.talk q = s.talk q := talk_eq hseen fun x hx => by
    obtain ⟨_, _, rfl⟩ := hl x hx
    rfl
  refine ⟨fun q pause hq => ?_, fun q hlen => ?_, fun o q hmem => ?_, ?_⟩
  · rw [htalk, hfailed]
    rw [hpauses] at hq
    rcases Nat.lt_or_ge q s.pauses.length with hlt | hge
    · rw [List.getElem?_append_left hlt] at hq
      exact hs.stage q pause hq
    · rw [List.getElem?_append_right hge] at hq
      obtain rfl := List.mem_singleton.mp (List.mem_of_getElem? hq)
      exact hs.fresh q hge
  · rw [htalk]
    rw [hpauses, List.length_append] at hlen
    exact hs.fresh q (le_trans (Nat.le_add_right _ _) hlen)
  · rw [hseen] at hmem
    rcases List.mem_append.mp hmem with hmem | hmem
    · obtain ⟨pause, hq, hsettled, hresumed⟩ := hs.processed o q hmem
      refine ⟨pause, ?_, hsettled, (htalk q).symm ▸ hresumed⟩
      rw [hpauses, List.getElem?_append_left (List.getElem?_eq_some_iff.mp hq).1, hq]
    · obtain ⟨_, _, h⟩ := hl _ hmem
      cases h
  · have hzero : l.count .disconnect = 0 := by
      refine List.count_eq_zero.mpr fun h => ?_
      obtain ⟨_, _, h⟩ := hl _ h
      cases h
    rw [hseen, List.count_append, hzero, hfailed]
    exact hs.disconnected

theorem Told.handlePaused (hs : s.Told) (hitBreakpoints : List JsString) (token : Bool) :
    (s.handlePaused hitBreakpoints token).Told := by
  unfold State.handlePaused
  dsimp only
  split
  · have hbegun : (s.pause [] []).Told := hs.begun rfl (List.append_nil _).symm (fun _ h => by cases h) rfl
    exact hbegun.resumeWithFallback (pause_last s [] []) rfl _
  · split
    · have hbegun : ((s.overBudget (s.candidates hitBreakpoints)).pause []
          (s.those ProbeDefinition.plainCounter (s.candidates hitBreakpoints))).Told := by
        refine hs.begun rfl rfl (fun x hx => ?_) rfl
        obtain ⟨o, -, rfl⟩ := List.mem_map.mp hx
        exact ⟨o, _, rfl⟩
      exact hbegun.resumeWithFallback (pause_last (s.overBudget _) [] _) rfl _
    · have hbegun : ((s.change (s.candidates hitBreakpoints) fun i => { i with pending := i.pending + 1 }).pause
          (s.candidates hitBreakpoints) []).Told :=
        hs.begun rfl (List.append_nil _).symm (fun _ h => by cases h) rfl
      split
      · exact hbegun.resumeWithFallback (pause_last (s.change _ _) _ []) rfl _
      · exact hbegun

theorem Told.captured (hs : s.Told) (p : ℕ) (captureError : Option JsString) (capture : PauseCapture.RawCapture) :
    (s.captured p captureError capture).Told := by
  unfold State.captured
  split
  · rename_i hp
    exact hs.resumeWithFallback hp rfl _
  · exact hs

/-- The process goes on after the answer. -/
theorem Told.resumed (hs : s.Told) (hp : s.pauses[p]? = some pause) (hlive : pause.stage.live = true)
    (hresumed : Resumed p (s.talk p ++ [.answer p true])) : ((s.see [.answer p true]).resumed p k).Told := by
  have htalk : (s.see [.answer p true]).talk p = s.talk p ++ [.answer p true] := by
    rw [talk_append (s := s) (l := [.answer p true]) rfl]
    simp [Seen.about]
  have hother : ∀ x ∈ [Seen.answer p true], ∀ q ≠ p, x.about q = false ∧ ∀ o, x ≠ .hit o q := fun x hx => by
    obtain rfl := List.mem_singleton.mp hx
    exact about_other (decide_eq_true rfl)
  have hnone : ∀ o, Seen.hit o p ∉ [Seen.answer p true] := fun o h => by cases List.mem_singleton.mp h
  have hdisconnected : (s.seen ++ [Seen.answer p true]).count .disconnect = if s.inspectorFailed then 1 else 0 := by
    rw [List.count_append, hs.disconnected]
    rfl
  rw [← htalk] at hresumed
  rcases k with - | ⟨captureError, capture⟩
  · exact hs.move .settled hp hlive rfl rfl hother (fun o h => absurd h (hnone o)) id (.inl hresumed) hdisconnected
  · exact hs.move (.immediate captureError capture) hp hlive rfl rfl hother (fun o h => absurd h (hnone o)) id
      hresumed hdisconnected

/-- Both resumes have failed: the inspector is disconnected, unless it was. -/
theorem Told.handleResumeFailure (hs : s.Told) (hp : s.pauses[p]? = some pause) {firstError : JsString}
    (hretrying : pause.stage = .retrying firstError k) (retryError : JsString) (disconnectError : Option JsString) :
    ((s.see [.answer p false]).handleResumeFailure p firstError retryError disconnectError).Told := by
  have htold := hs.stage p pause hp
  rw [hretrying] at htold
  have htold : s.talk p = [.resume p, .answer p false, .resume p] := htold
  have hlive : pause.stage.live = true := by rw [hretrying]; rfl
  have hanswer : ∀ q ≠ p, (Seen.answer p false).about q = false ∧ ∀ o, Seen.answer p false ≠ .hit o q :=
    about_other (decide_eq_true rfl)
  unfold State.handleResumeFailure
  dsimp only
  split
  · rename_i hfailed
    refine hs.move (l := [.answer p false]) .settled hp hlive rfl rfl (fun x hx => ?_) (fun o h => ?_) id
      (.inr ⟨hfailed, .inr ?_⟩) ?_
    · obtain rfl := List.mem_singleton.mp hx
      exact hanswer
    · cases List.mem_singleton.mp h
    · show ((s.seen ++ [Seen.answer p false]).filter (Seen.about p)) = _
      rw [List.filter_append]
      show s.talk p ++ _ = _
      rw [htold]
      simp [Seen.about]
    · show (s.seen ++ [Seen.answer p false]).count .disconnect = _
      rw [List.count_append, hs.disconnected]
      rfl
  · rename_i hworks
    refine hs.move (l := [.answer p false, .disconnect]) .settled hp hlive rfl
      (List.append_assoc s.seen [Seen.answer p false] [Seen.disconnect]) (fun x hx => ?_) (fun o h => ?_) (fun _ => rfl)
      (.inr ⟨rfl, .inr ?_⟩) ?_
    · rcases List.mem_pair.mp hx with rfl | rfl
      · exact hanswer
      · exact fun q _ => ⟨rfl, fun o h => by cases h⟩
    · rcases List.mem_pair.mp h with h | h <;> cases h
    · show (((s.seen ++ [Seen.answer p false]) ++ [Seen.disconnect]).filter (Seen.about p)) = _
      rw [List.append_assoc, List.filter_append]
      show s.talk p ++ _ = _
      rw [htold]
      simp [Seen.about]
    · have hworks : s.inspectorFailed = false := Bool.not_eq_true _ ▸ hworks
      show ((s.seen ++ [Seen.answer p false]) ++ [Seen.disconnect]).count .disconnect = 1
      rw [List.append_assoc, List.count_append, hs.disconnected, hworks]
      rfl

theorem Told.answered (hs : s.Told) (p : ℕ) (error disconnectError : Option JsString) :
    (s.answered p error disconnectError).Told := by
  rcases s.answered_cases p error disconnectError with h | ⟨pause, k, hp, hstage, h⟩
  · rw [h]
    exact hs
  · have htold := hs.stage p pause hp
    have hlive : pause.stage.live = true := by rcases hstage with h | ⟨_, h⟩ <;> rw [h] <;> rfl
    rcases h with ⟨-, h⟩ | ⟨firstError, hresuming, -, h⟩ | ⟨firstError, retryError, hretrying, -, h⟩
    · rw [h]
      refine hs.resumed hp hlive ?_
      rcases hstage with hstage | ⟨_, hstage⟩
      · rw [hstage] at htold
        have htold : s.talk p = [.resume p] := htold
        rw [htold]
        exact .first
      · rw [hstage] at htold
        have htold : s.talk p = [.resume p, .answer p false, .resume p] := htold
        rw [htold]
        exact .second
    · rw [h]
      rw [hresuming] at htold
      have htold : s.talk p = [.resume p] := htold
      refine hs.move (l := [.answer p false, .resume p]) (.retrying firstError k) hp hlive rfl rfl (fun x hx => ?_)
        (fun o h => ?_) id ?_ ?_
      · rcases List.mem_pair.mp hx with rfl | rfl <;> exact about_other (decide_eq_true rfl)
      · rcases List.mem_pair.mp h with h | h <;> cases h
      · show ((s.seen ++ [Seen.answer p false, Seen.resume p]).filter (Seen.about p)) = _
        rw [List.filter_append]
        show s.talk p ++ _ = _
        rw [htold]
        simp [Seen.about]
      · show (s.seen ++ [Seen.answer p false, Seen.resume p]).count .disconnect = _
        rw [List.count_append, hs.disconnected]
        rfl
    · rw [h]
      exact hs.handleResumeFailure hp hretrying _ _

variable {lower : JsString → JsString} {config : PauseCapture.ManagerConfig}

/-- The flags of the manager stay as they are. -/
structure Flags (s t : State) : Prop where
  suspended : t.suspended = s.suspended
  stopped : t.stopped = s.stopped
  failed : t.inspectorFailed = s.inspectorFailed

theorem Flags.refl (s : State) : s.Flags s := ⟨rfl, rfl, rfl⟩

theorem Flags.trans {s t u : State} (h : s.Flags t) (h' : t.Flags u) : s.Flags u :=
  ⟨h'.suspended.trans h.suspended, h'.stopped.trans h.stopped, h'.failed.trans h.failed⟩

theorem retireAtHitLimit_pauses (s : State) (o : ℕ) :
    (s.retireAtHitLimit o).pauses = s.pauses ∧ s.Flags (s.retireAtHitLimit o) := by
  unfold State.retireAtHitLimit
  split
  · exact ⟨rfl, .refl s⟩
  · split
    · exact ⟨rfl, .refl s⟩
    · exact ⟨rfl, rfl, rfl, rfl⟩

theorem limitCounted_pauses (s : State) (o : ℕ) : (s.limitCounted o).pauses = s.pauses ∧ s.Flags (s.limitCounted o) := by
  unfold State.limitCounted
  split
  · exact s.retireAtHitLimit_pauses o
  · exact ⟨rfl, .refl s⟩

theorem processCandidate_pauses (captureError : Option JsString) (capture : PauseCapture.RawCapture) (p : ℕ) (s : State)
    (o : ℕ) :
    (s.processCandidate lower config captureError capture p o).pauses = s.pauses ∧
      s.Flags (s.processCandidate lower config captureError capture p o) := by
  rcases s.processCandidate_cases o p with h | ⟨probe, detail, h⟩ | ⟨_, -, -, -, -, -, h⟩
  · rw [h]
    exact ⟨rfl, .refl s⟩
  · rw [h]
    exact ⟨rfl, rfl, rfl, rfl⟩
  · rw [h]
    obtain ⟨hpauses, hflags⟩ := limitCounted_pauses ((s.change [o] fun i => { i with hits := i.hits + 1 }).see [.hit o p]) o
    exact ⟨hpauses, .trans (t := (s.change [o] _).see _) ⟨rfl, rfl, rfl⟩ hflags⟩

theorem foldl_pauses {α : Type*} {f : State → α → State} (hf : ∀ s a, (f s a).pauses = s.pauses ∧ s.Flags (f s a))
    (l : List α) (s : State) : (l.foldl f s).pauses = s.pauses ∧ s.Flags (l.foldl f s) :=
  foldl_rel (r := fun s t => t.pauses = s.pauses ∧ s.Flags t) (fun s => ⟨rfl, .refl s⟩)
    (fun ⟨hpauses, hflags⟩ ⟨hpauses', hflags'⟩ => ⟨hpauses'.trans hpauses, hflags.trans hflags'⟩) hf l s

/-- What is processed was captured in a pause that has gone on. -/
theorem Told.process (hs : s.Told) (p : ℕ) : (s.process lower config p).Told := by
  obtain ⟨l, hseen, hl⟩ : Adds (fun x => (∃ o, x = .hit o p) ∨ x.IsStatus) s (s.process lower config p) := process_seen s p
  rcases s.process_cases lower config p with h | ⟨pause, captureError, capture, hp, hstage, h⟩
  · rw [h]
    exact hs
  · have htold := hs.stage p pause hp
    rw [hstage] at htold
    have hresumed : Resumed p (s.talk p) := htold
    have hframe : (s.process lower config p).pauses = (s.setStage p .settled).pauses ∧
        (s.process lower config p).inspectorFailed = s.inspectorFailed := by
      rcases h with h | ⟨-, -, -, -, h⟩
      · rw [h]
        exact ⟨rfl, rfl⟩
      · rw [h]
        obtain ⟨hpauses, hflags⟩ := foldl_pauses (processCandidate_pauses captureError capture p) pause.candidates
          ((s.releasePending pause.candidates).setStage p .settled)
        exact ⟨hpauses, hflags.failed⟩
    have hsilent : ∀ x ∈ l, x.about p = false := fun x hx => by
      rcases hl x hx with ⟨o, rfl⟩ | ⟨_, _, _, rfl⟩ <;> rfl
    have htalk := talk_eq hseen hsilent
    have hzero : l.count .disconnect = 0 := by
      refine List.count_eq_zero.mpr fun h => ?_
      rcases hl _ h with ⟨_, h⟩ | ⟨_, _, _, h⟩ <;> cases h
    refine hs.move _ hp (by rw [hstage]; rfl) hframe.1 hseen (fun x hx q hq => ?_) (fun o _ => ⟨rfl, htalk.symm ▸ hresumed⟩)
      (fun h => hframe.2.trans h) (.inl (htalk.symm ▸ hresumed)) ?_
    · rcases hl x hx with ⟨o, rfl⟩ | ⟨_, _, _, rfl⟩
      · refine ⟨rfl, fun o' h => hq ?_⟩
        cases h
        rfl
      · exact ⟨rfl, fun o h => by cases h⟩
    · rw [hseen, List.count_append, hzero, hframe.2]
      exact hs.disconnected

theorem uninstall_pauses (s : State) (o : ℕ) :
    (s.uninstall o).pauses = s.pauses ∧ (s.uninstall o).inspectorFailed = s.inspectorFailed := by
  unfold State.uninstall
  split <;> exact ⟨rfl, rfl⟩

end State

/-- An event that is about a pause. -/
def Event.moves : Event → Bool
  | .paused _ _ | .retireCounted _ | .captured _ _ _ | .answered _ _ _ | .process _ => true
  | _ => false

section

variable {lower : JsString → JsString} {config : PauseCapture.ManagerConfig} {s : State}

/-- Other events leave the pauses alone, and the inspector. -/
theorem next_pauses {e : Event} (he : e.moves = false) :
    (next lower config s e).pauses = s.pauses ∧ (next lower config s e).inspectorFailed = s.inspectorFailed := by
  cases e with
  | paused | retireCounted | captured | answered | process => cases he
  | report =>
    show s.report.pauses = s.pauses ∧ s.report.inspectorFailed = s.inspectorFailed
    unfold State.report
    split
    · exact ⟨rfl, rfl⟩
    · split
      · exact ⟨rfl, rfl⟩
      · obtain ⟨hpauses, hflags⟩ := State.foldl_pauses (f := fun s probe => s.error probe _)
          (fun _ _ => ⟨rfl, rfl, rfl, rfl⟩) _ _
        exact ⟨hpauses, hflags.failed⟩
  | retired o error =>
    show (s.retired o error).pauses = s.pauses ∧ (s.retired o error).inspectorFailed = s.inspectorFailed
    unfold State.retired
    dsimp only
    split
    · exact ⟨rfl, rfl⟩
    · split <;> exact ⟨rfl, rfl⟩
  | ensureArmed probe resolution =>
    show (s.ensureArmed probe resolution).pauses = s.pauses ∧ (s.ensureArmed probe resolution).inspectorFailed = s.inspectorFailed
    unfold State.ensureArmed
    split
    · exact ⟨rfl, rfl⟩
    · dsimp only
      split <;> exact ⟨rfl, rfl⟩
  | acquired a =>
    show (s.acquired a).pauses = s.pauses ∧ (s.acquired a).inspectorFailed = s.inspectorFailed
    unfold State.acquired
    split
    · split
      · exact ⟨rfl, rfl⟩
      · split <;> exact ⟨rfl, rfl⟩
      · exact ⟨rfl, rfl⟩
    · exact ⟨rfl, rfl⟩
  | released a =>
    show (s.released a).pauses = s.pauses ∧ (s.released a).inspectorFailed = s.inspectorFailed
    unfold State.released
    split <;> exact ⟨rfl, rfl⟩
  | registry e =>
    show State.pauses (ite _ _ _) = s.pauses ∧ State.inspectorFailed (ite _ _ _) = s.inspectorFailed
    split <;> exact ⟨rfl, rfl⟩
  | reconcile probes =>
    show (s.reconcile probes).pauses = s.pauses ∧ (s.reconcile probes).inspectorFailed = s.inspectorFailed
    unfold State.reconcile
    split <;> exact ⟨rfl, rfl⟩
  | reconcileNext r =>
    show (s.reconcileNext r).pauses = s.pauses ∧ (s.reconcileNext r).inspectorFailed = s.inspectorFailed
    unfold State.reconcileNext
    split
    · dsimp only
      split
      · exact State.uninstall_pauses _ _
      · exact ⟨rfl, rfl⟩
    · exact ⟨rfl, rfl⟩
    · exact ⟨rfl, rfl⟩
  | suspendAll detail =>
    show (s.suspendAll detail).pauses = s.pauses ∧ (s.suspendAll detail).inspectorFailed = s.inspectorFailed
    unfold State.suspendAll
    split <;> exact ⟨rfl, rfl⟩
  | rearm =>
    show s.rearm.pauses = s.pauses ∧ s.rearm.inspectorFailed = s.inspectorFailed
    unfold State.rearm
    split <;> exact ⟨rfl, rfl⟩
  | stop =>
    show s.stop.pauses = s.pauses ∧ s.stop.inspectorFailed = s.inspectorFailed
    unfold State.stop
    split <;> exact ⟨rfl, rfl⟩

/-- They show statuses only. -/
theorem shows_isStatus {e : Event} (he : e.moves = false) {x : Seen} (h : e.Shows s x) : x.IsStatus := by
  cases e with
  | paused | retireCounted | captured | answered | process => cases he
  | acquired | suspendAll => exact h
  | report | retired | ensureArmed | released | registry | reconcile | reconcileNext | rearm | stop => exact h.elim

theorem State.Told.next (hs : s.Told) (e : Event) : (next lower config s e).Told := by
  by_cases he : e.moves = true
  · cases e with
    | paused hitBreakpoints token => exact hs.handlePaused hitBreakpoints token
    | captured p captureError capture => exact hs.captured p captureError capture
    | answered p error disconnectError => exact hs.answered p error disconnectError
    | process p => exact hs.process p
    | retireCounted p =>
      have hadds : Adds Seen.IsStatus s (s.retireCounted p) := next_seen lower config s (.retireCounted p)
      show (s.retireCounted p).Told
      unfold State.retireCounted at hadds ⊢
      split at hadds
      · exact hs
      · have hframe (pause : Pause) := State.foldl_pauses State.limitCounted_pauses pause.counted
          { s with pauses := s.pauses.modify p fun pause => { pause with counted := [] } }
        refine hs.still (fun q => ?_) (hframe _).2.failed hadds
        rw [(hframe _).1]
        show ((s.pauses.modify p _)[q]?).map _ = _
        rw [List.getElem?_modify]
        rcases s.pauses[q]? with - | pause
        · rfl
        · by_cases h : p = q <;> simp [h]
    | report | retired | ensureArmed | acquired | released | registry | reconcile | reconcileNext | suspendAll | rearm |
      stop => cases he
  · have he : e.moves = false := Bool.not_eq_true _ ▸ he
    obtain ⟨hpauses, hfailed⟩ := next_pauses he
    exact hs.still (fun q => by rw [hpauses]) hfailed ((next_seen lower config s e).mono fun x hx => shows_isStatus he hx)

/-! ### After the failure -/

/-- Names only go, what is suspended stays so, and a suspension takes all names. -/
structure State.Fades (s t : State) : Prop where
  named : ∀ id o, t.installed.get? id = some o → s.installed.get? id = some o
  suspended : s.suspended = true → t.suspended = true
  emptied : s.suspended = false → t.suspended = true → ∀ id, t.installed.get? id = none

namespace State.Fades

variable {t u : State}

/-- A step that suspends nothing. -/
theorem of_named (hnamed : ∀ id o, t.installed.get? id = some o → s.installed.get? id = some o)
    (hsuspended : t.suspended = s.suspended) : s.Fades t :=
  ⟨hnamed, hsuspended.trans, fun hs ht => by
    rw [hsuspended, hs] at ht
    cases ht⟩

theorem of_eq (hinstalled : t.installed = s.installed) (hsuspended : t.suspended = s.suspended) : s.Fades t :=
  of_named (fun _ _ h => hinstalled ▸ h) hsuspended

theorem refl (s : State) : s.Fades s := of_eq rfl rfl

theorem absent (h : s.Fades t) {id : JsString} (hnone : s.installed.get? id = none) : t.installed.get? id = none := by
  rcases hid : t.installed.get? id with - | o
  · rfl
  · rw [h.named id o hid] at hnone
    cases hnone

theorem trans (h : s.Fades t) (h' : t.Fades u) : s.Fades u where
  named id o hu := h.named id o (h'.named id o hu)
  suspended hs := h'.suspended (h.suspended hs)
  emptied hs hu id := by
    rcases ht : t.suspended with - | -
    · exact h'.emptied ht hu id
    · exact h'.absent (h.emptied hs ht id)

theorem foldl {α : Type*} {f : State → α → State} (hf : ∀ (s : State) a, s.Fades (f s a)) (l : List α) (s : State) :
    s.Fades (l.foldl f s) :=
  foldl_rel refl trans hf l s

/-- No probe is left. -/
theorem of_empty (hinstalled : t.installed = ∅) (hsuspended : s.suspended = true → t.suspended = true) : s.Fades t := by
  have hnone (id : JsString) : t.installed.get? id = none := by
    rw [hinstalled]
    rfl
  refine ⟨fun id o h => ?_, hsuspended, fun _ _ => hnone⟩
  rw [hnone] at h
  cases h

theorem retireAtHitLimit (s : State) (o : ℕ) : s.Fades (s.retireAtHitLimit o) := by
  unfold State.retireAtHitLimit
  split
  · exact refl s
  · split
    · exact refl s
    · exact of_named (Forward.deleted s _) rfl

theorem limitCounted (s : State) (o : ℕ) : s.Fades (s.limitCounted o) := by
  unfold State.limitCounted
  split
  · exact retireAtHitLimit s o
  · exact refl s

theorem uninstall (s : State) (o : ℕ) : s.Fades (s.uninstall o) := by
  unfold State.uninstall
  split
  · exact refl s
  · exact of_named (Forward.deleted s _) rfl

theorem resumeWithFallback (s : State) (p : ℕ) (k : OnResumed) : s.Fades (s.resumeWithFallback p k) := by
  unfold State.resumeWithFallback
  split <;> exact of_eq rfl rfl

theorem resumed (s : State) (p : ℕ) (k : OnResumed) : s.Fades (s.resumed p k) := by
  rcases k with - | ⟨captureError, capture⟩ <;> exact of_eq rfl rfl

theorem answered (s : State) (p : ℕ) (error disconnectError : Option JsString) :
    s.Fades (s.answered p error disconnectError) := by
  rcases s.answered_cases p error disconnectError with h | ⟨_, k, -, -, h⟩
  · rw [h]
    exact refl s
  · rcases h with ⟨-, h⟩ | ⟨_, -, -, h⟩ | ⟨_, _, -, -, h⟩
    · rw [h]
      exact .trans (t := s.see [.answer p true]) (of_eq rfl rfl) (resumed _ p k)
    · rw [h]
      exact of_eq rfl rfl
    · rw [h]
      unfold State.handleResumeFailure
      dsimp only
      split
      · exact of_eq rfl rfl
      · exact of_empty rfl fun _ => rfl

theorem handlePaused (s : State) (hitBreakpoints : List JsString) (token : Bool) :
    s.Fades (s.handlePaused hitBreakpoints token) := by
  unfold State.handlePaused
  dsimp only
  split
  · exact .trans (t := s.pause [] []) (of_eq rfl rfl) (resumeWithFallback _ _ _)
  · split
    · exact .trans (t := (s.overBudget _).pause [] _) (of_eq rfl rfl) (resumeWithFallback _ _ _)
    · split
      · exact .trans (t := (s.change _ _).pause _ []) (of_eq rfl rfl) (resumeWithFallback _ _ _)
      · exact of_eq rfl rfl

theorem processCandidate (captureError : Option JsString) (capture : PauseCapture.RawCapture) (p : ℕ) (s : State) (o : ℕ) :
    s.Fades (s.processCandidate lower config captureError capture p o) := by
  rcases s.processCandidate_cases o p with h | ⟨probe, detail, h⟩ | ⟨_, -, -, -, -, -, h⟩
  · rw [h]
    exact refl s
  · rw [h]
    exact of_eq rfl rfl
  · rw [h]
    exact .trans (t := (s.change [o] _).see _) (of_eq rfl rfl) (limitCounted _ o)

theorem process (s : State) (p : ℕ) : s.Fades (s.process lower config p) := by
  rcases s.process_cases lower config p with h | ⟨pause, captureError, capture, -, -, h | ⟨-, -, -, -, h⟩⟩
  · rw [h]
    exact refl s
  · rw [h]
    exact of_eq rfl rfl
  · rw [h]
    exact .trans (t := (s.releasePending _).setStage p .settled) (of_eq rfl rfl)
      (foldl (processCandidate captureError capture p) _ _)

theorem acquired (a : ℕ) (hs : s.suspended = true) : s.Fades (s.acquired a) := by
  unfold State.acquired
  split
  · split
    · exact of_eq rfl rfl
    · split
      · exact of_eq rfl rfl
      · rename_i hgone
        simp [hs] at hgone
    · exact refl s
  · exact refl s

/-- Any step but an installation and a re-arming. -/
theorem next {e : Event} (hacquired : ∀ a, e = .acquired a → s.suspended = true)
    (hrearm : e = .rearm → s.inspectorFailed = true) : s.Fades (next lower config s e) := by
  cases e with
  | paused hitBreakpoints token => exact handlePaused s hitBreakpoints token
  | retireCounted p =>
    show s.Fades (s.retireCounted p)
    unfold State.retireCounted
    split
    · exact refl s
    · exact .trans (t := { s with pauses := s.pauses.modify p fun pause => { pause with counted := [] } }) (of_eq rfl rfl)
        (foldl limitCounted _ _)
  | captured p captureError capture =>
    show s.Fades (s.captured p captureError capture)
    unfold State.captured
    split
    · exact resumeWithFallback s p _
    · exact refl s
  | answered p error disconnectError => exact answered s p error disconnectError
  | process p => exact process s p
  | report =>
    show s.Fades s.report
    unfold State.report
    split
    · exact refl s
    · split
      · exact of_eq rfl rfl
      · exact .trans (t := { s with failure := none }) (of_eq rfl rfl)
          (foldl (f := fun s probe => s.error probe _) (fun _ _ => of_eq rfl rfl) _ _)
  | retired o error =>
    show s.Fades (s.retired o error)
    unfold State.retired
    dsimp only
    split
    · exact refl s
    · split <;> exact of_eq rfl rfl
  | ensureArmed probe resolution =>
    show s.Fades (s.ensureArmed probe resolution)
    unfold State.ensureArmed
    split
    · exact refl s
    · dsimp only
      split <;> exact of_eq rfl rfl
  | acquired a => exact acquired a (hacquired a rfl)
  | released a =>
    show s.Fades (s.released a)
    unfold State.released
    split <;> exact of_eq rfl rfl
  | registry e =>
    show s.Fades (ite _ _ _)
    split <;> exact of_eq rfl rfl
  | reconcile probes =>
    show s.Fades (s.reconcile probes)
    unfold State.reconcile
    split <;> exact of_eq rfl rfl
  | reconcileNext r =>
    show s.Fades (s.reconcileNext r)
    unfold State.reconcileNext
    split
    · dsimp only
      split
      · exact .trans (t := s.setReconciling r _) (of_eq rfl rfl) (uninstall _ _)
      · exact of_eq rfl rfl
    · exact of_eq rfl rfl
    · exact refl s
  | suspendAll detail =>
    show s.Fades (s.suspendAll detail)
    unfold State.suspendAll
    split
    · exact refl s
    · exact of_empty rfl fun _ => rfl
  | rearm =>
    show s.Fades s.rearm
    rw [State.rearm, hrearm rfl, Bool.or_true, if_pos rfl]
    exact refl s
  | stop =>
    show s.Fades s.stop
    unfold State.stop
    split
    · exact refl s
    · exact of_empty rfl id

end State.Fades

/-- The manager is suspended, and no probe is installed. -/
structure State.Still (s : State) : Prop where
  suspended : s.suspended = true
  empty : ∀ id, s.installed.get? id = none

theorem State.Still.next (h : s.Still) {e : Event} (he : e = .rearm → s.inspectorFailed = true) :
    (next lower config s e).Still := by
  have hfades : s.Fades (NodeProbes.next lower config s e) := State.Fades.next (fun _ _ => h.suspended) he
  exact ⟨hfades.suspended h.suspended, fun id => hfades.absent (h.empty id)⟩

/-- The inspector has failed besides. -/
structure State.Dead (s : State) : Prop extends s.Still where
  failed : s.inspectorFailed = true

theorem State.Dead.next (h : s.Dead) (e : Event) : (next lower config s e).Dead where
  toStill := h.toStill.next fun _ => h.failed
  failed := by
    rcases hfailed : (NodeProbes.next lower config s e).inspectorFailed with - | -
    · have hforward : Forward s (NodeProbes.next lower config s e) := Forward.next s e
      have h' := hforward.failed hfailed
      rw [h.failed] at h'
      cases h'
    · rfl

/-- The events that can change a flag. -/
def Event.flags : Event → Bool
  | .answered _ _ _ | .suspendAll _ | .rearm | .stop => true
  | _ => false

theorem next_flags {e : Event} (he : e.flags = false) : s.Flags (next lower config s e) := by
  have hresume (t : State) (p : ℕ) (k : OnResumed) : t.Flags (t.resumeWithFallback p k) := by
    unfold State.resumeWithFallback
    split <;> exact ⟨rfl, rfl, rfl⟩
  cases e with
  | answered | suspendAll | rearm | stop => cases he
  | paused hitBreakpoints token =>
    show s.Flags (s.handlePaused hitBreakpoints token)
    unfold State.handlePaused
    dsimp only
    split
    · exact .trans (t := s.pause [] []) ⟨rfl, rfl, rfl⟩ (hresume _ _ _)
    · split
      · exact .trans (t := (s.overBudget _).pause [] _) ⟨rfl, rfl, rfl⟩ (hresume _ _ _)
      · split
        · exact .trans (t := (s.change _ _).pause _ []) ⟨rfl, rfl, rfl⟩ (hresume _ _ _)
        · exact ⟨rfl, rfl, rfl⟩
  | retireCounted p =>
    show s.Flags (s.retireCounted p)
    unfold State.retireCounted
    split
    · exact .refl s
    · exact .trans (t := { s with pauses := s.pauses.modify p fun pause => { pause with counted := [] } }) ⟨rfl, rfl, rfl⟩
        (State.foldl_pauses State.limitCounted_pauses _ _).2
  | captured p captureError capture =>
    show s.Flags (s.captured p captureError capture)
    unfold State.captured
    split
    · exact hresume s p _
    · exact .refl s
  | process p =>
    show s.Flags (s.process lower config p)
    rcases s.process_cases lower config p with h | ⟨pause, captureError, capture, -, -, h | ⟨-, -, -, -, h⟩⟩
    · rw [h]
      exact .refl s
    · rw [h]
      exact ⟨rfl, rfl, rfl⟩
    · rw [h]
      exact .trans (t := (s.releasePending _).setStage p .settled) ⟨rfl, rfl, rfl⟩
        (State.foldl_pauses (State.processCandidate_pauses captureError capture p) _ _).2
  | report =>
    show s.Flags s.report
    unfold State.report
    split
    · exact .refl s
    · split
      · exact ⟨rfl, rfl, rfl⟩
      · exact .trans (t := { s with failure := none }) ⟨rfl, rfl, rfl⟩
          (State.foldl_pauses (f := fun s probe => s.error probe _) (fun _ _ => ⟨rfl, rfl, rfl, rfl⟩) _ _).2
  | retired o error =>
    show s.Flags (s.retired o error)
    unfold State.retired
    dsimp only
    split
    · exact .refl s
    · split <;> exact ⟨rfl, rfl, rfl⟩
  | ensureArmed probe resolution =>
    show s.Flags (s.ensureArmed probe resolution)
    unfold State.ensureArmed
    split
    · exact .refl s
    · dsimp only
      split <;> exact ⟨rfl, rfl, rfl⟩
  | acquired a =>
    show s.Flags (s.acquired a)
    unfold State.acquired
    split
    · split
      · exact ⟨rfl, rfl, rfl⟩
      · split <;> exact ⟨rfl, rfl, rfl⟩
      · exact .refl s
    · exact .refl s
  | released a =>
    show s.Flags (s.released a)
    unfold State.released
    split <;> exact ⟨rfl, rfl, rfl⟩
  | registry e =>
    show s.Flags (ite _ _ _)
    split <;> exact ⟨rfl, rfl, rfl⟩
  | reconcile probes =>
    show s.Flags (s.reconcile probes)
    unfold State.reconcile
    split <;> exact ⟨rfl, rfl, rfl⟩
  | reconcileNext r =>
    show s.Flags (s.reconcileNext r)
    unfold State.reconcileNext
    split
    · dsimp only
      split
      · unfold State.uninstall
        split <;> exact ⟨rfl, rfl, rfl⟩
      · exact ⟨rfl, rfl, rfl⟩
    · exact ⟨rfl, rfl, rfl⟩
    · exact .refl s

/-- Only the answer to a resume can fail the inspector. -/
theorem next_failed {e : Event} (he : ∀ p error disconnectError, e ≠ .answered p error disconnectError) :
    (next lower config s e).inspectorFailed = s.inspectorFailed := by
  rcases hflags : e.flags with - | -
  · exact (next_flags hflags).failed
  · cases e with
    | answered p error disconnectError => exact absurd rfl (he p error disconnectError)
    | suspendAll | rearm | stop => exact (next_pauses rfl).2
    | _ => cases hflags

/-- **A manager that is suspended has no probe installed.** -/
theorem Reachable.still (h : Reachable lower config s) : s.suspended = true → s.Still := by
  refine h.invariant (I := fun s => s.suspended = true → s.Still) (fun h => by cases h) fun s e ih _ hsuspended => ?_
  by_cases hrearm : e = .rearm ∧ s.inspectorFailed = false
  · obtain ⟨rfl, hworks⟩ := hrearm
    rcases hstopped : s.stopped with - | -
    · have heq : (next lower config s .rearm).suspended = false := by
        show s.rearm.suspended = false
        rw [State.rearm, hstopped, hworks]
        rfl
      rw [heq] at hsuspended
      cases hsuspended
    · have heq : next lower config s .rearm = s := if_pos (by rw [hstopped, Bool.true_or])
      rw [heq] at hsuspended ⊢
      exact ih hsuspended
  · have hfailed (he : e = .rearm) : s.inspectorFailed = true := by
      rcases hworks : s.inspectorFailed with - | -
      · exact absurd ⟨he, hworks⟩ hrearm
      · rfl
    rcases hs : s.suspended with - | -
    · by_cases hacquired : ∃ a, e = .acquired a
      · obtain ⟨a, rfl⟩ := hacquired
        have hflags : s.Flags (next lower config s (.acquired a)) := next_flags rfl
        rw [hflags.suspended, hs] at hsuspended
        cases hsuspended
      · have hfades : s.Fades (next lower config s e) :=
          State.Fades.next (fun a ha => absurd ⟨a, ha⟩ hacquired) hfailed
        exact ⟨hsuspended, hfades.emptied hs hsuspended⟩
    · exact (ih hs).next hfailed

theorem State.dead_of_answered {p : ℕ} {error disconnectError : Option JsString} (hs : s.inspectorFailed = false)
    (h : (s.answered p error disconnectError).inspectorFailed = true) : (s.answered p error disconnectError).Dead := by
  have hkeeps : ∀ t : State, t.inspectorFailed = s.inspectorFailed → t.inspectorFailed ≠ true := fun t ht h => by
    rw [ht, hs] at h
    cases h
  rcases s.answered_cases p error disconnectError with heq | ⟨_, k, -, -, heq⟩
  · rw [heq, hs] at h
    cases h
  · rcases heq with ⟨-, heq⟩ | ⟨_, -, -, heq⟩ | ⟨_, _, -, -, heq⟩
    · rw [heq] at h
      refine absurd h (hkeeps _ ?_)
      rcases k with - | ⟨captureError, capture⟩ <;> rfl
    · rw [heq] at h
      exact absurd h (hkeeps _ rfl)
    · rw [heq] at h ⊢
      unfold State.handleResumeFailure at h ⊢
      dsimp only at h ⊢
      split at h
      · exact absurd h (hkeeps _ rfl)
      · rename_i hworks
        rw [if_neg hworks]
        exact ⟨⟨rfl, fun id => rfl⟩, rfl⟩

theorem Reachable.dead (h : Reachable lower config s) : s.inspectorFailed = true → s.Dead := by
  refine h.invariant (I := fun s => s.inspectorFailed = true → s.Dead) (fun h => by cases h) fun s e ih _ hfailed => ?_
  rcases hbefore : s.inspectorFailed with - | -
  · by_cases he : ∃ p error disconnectError, e = .answered p error disconnectError
    · obtain ⟨p, error, disconnectError, rfl⟩ := he
      exact State.dead_of_answered hbefore hfailed
    · rw [next_failed fun p error disconnectError h => he ⟨p, error, disconnectError, h⟩, hbefore] at hfailed
      cases hfailed
  · exact (ih hbefore).next e

/-- Without installations nothing is a candidate. -/
theorem State.Still.candidates (h : s.Still) (hitBreakpoints : List JsString) : s.candidates hitBreakpoints = [] := by
  have hnone : ∀ l : List JsString, l.filterMap s.installed.get? = [] := by
    intro l
    induction l with
    | nil => rfl
    | cons id l ih => rw [List.filterMap_cons, h.empty, ih]
  rw [State.candidates, hnone]
  rfl

theorem State.Still.retireAtHitLimit (h : s.Still) (o : ℕ) : s.retireAtHitLimit o = s := by
  unfold State.retireAtHitLimit
  split
  · rfl
  · rw [h.empty, if_pos (by simp)]

theorem State.Still.limitAll (h : s.Still) (counted : List ℕ) : counted.foldl State.limitCounted s = s := by
  induction counted with
  | nil => rfl
  | cons o counted ih =>
    have hsame : s.limitCounted o = s := by
      unfold State.limitCounted
      split
      · exact h.retireAtHitLimit o
      · rfl
    rw [List.foldl_cons, hsame, ih]

/-- A resume of a pause, or its answer, or the end of an inspector that worked. -/
def Seen.OfResumes (s : State) (x : Seen) : Prop := (∃ p, x.about p = true) ∨ x = .disconnect ∧ s.inspectorFailed = false

/-- While the manager is still, all that is seen is of resumes. -/
theorem State.Still.seen (h : s.Still) (e : Event) : Adds (Seen.OfResumes s) s (NodeProbes.next lower config s e) := by
  have hresume {x : Seen} {p : ℕ} (hx : x = .resume p) : Seen.OfResumes s x := .inl ⟨p, hx ▸ decide_eq_true rfl⟩
  cases e with
  | paused hitBreakpoints token =>
    show Adds _ s (s.handlePaused hitBreakpoints token)
    unfold State.handlePaused
    dsimp only
    rw [if_pos (h.candidates hitBreakpoints)]
    exact ((s.pause [] []).resumeWithFallback_seen s.pauses.length .nothing).mono fun _ => hresume
  | captured p captureError capture =>
    show Adds _ s (s.captured p captureError capture)
    unfold State.captured
    split
    · exact (s.resumeWithFallback_seen p _).mono fun _ => hresume
    · exact .refl s
  | answered p error disconnectError =>
    show Adds _ s (s.answered p error disconnectError)
    rcases s.answered_cases p error disconnectError with heq | ⟨_, k, -, -, heq⟩
    · rw [heq]
      exact .refl s
    · rcases heq with ⟨-, heq⟩ | ⟨_, -, -, heq⟩ | ⟨_, _, -, -, heq⟩
      · rw [heq]
        exact .single (x := .answer p true) (State.resumed_seen _ p k) (.inl ⟨p, decide_eq_true rfl⟩)
      · rw [heq]
        refine ⟨[.answer p false, .resume p], rfl, fun x hx => .inl ⟨p, ?_⟩⟩
        rcases List.mem_pair.mp hx with rfl | rfl <;> exact decide_eq_true rfl
      · rw [heq]
        unfold State.handleResumeFailure
        dsimp only
        split
        · exact .single (x := .answer p false) rfl (.inl ⟨p, decide_eq_true rfl⟩)
        · rename_i hworks
          refine ⟨[.answer p false, .disconnect], List.append_assoc .., fun x hx => ?_⟩
          rcases List.mem_pair.mp hx with rfl | rfl
          · exact .inl ⟨p, decide_eq_true rfl⟩
          · exact .inr ⟨rfl, Bool.eq_false_iff.mpr hworks⟩
  | process p =>
    refine .of_eq ?_
    show (s.process lower config p).seen = s.seen
    rcases s.process_cases lower config p with heq | ⟨pause, captureError, capture, -, -, heq | ⟨-, hawake, -⟩⟩
    · rw [heq]
    · rw [heq]
      rfl
    · rw [h.suspended] at hawake
      cases hawake
  | retireCounted p =>
    refine .of_eq ?_
    show (s.retireCounted p).seen = s.seen
    unfold State.retireCounted
    split
    · rfl
    · rename_i pause _
      have hcleared : State.Still { s with pauses := s.pauses.modify p fun pause => { pause with counted := [] } } :=
        ⟨h.suspended, h.empty⟩
      rw [hcleared.limitAll pause.counted]
  | acquired a =>
    refine .of_eq ?_
    show (s.acquired a).seen = s.seen
    unfold State.acquired
    split
    · split
      · rfl
      · split
        · rfl
        · rename_i hgone
          simp [h.suspended] at hgone
      · rfl
    · rfl
  | suspendAll detail =>
    refine .of_eq ?_
    show (s.suspendAll detail).seen = s.seen
    rw [State.suspendAll, h.suspended, Bool.or_true, if_pos rfl]
  | report | retired | ensureArmed | released | registry | reconcile | reconcileNext | rearm | stop =>
    exact (next_seen lower config s _).mono fun _ h => h.elim

/-- Once the inspector has failed it is not disconnected again. -/
theorem State.Dead.seen (h : s.Dead) (e : Event) :
    Adds (fun x => ∃ p, x.about p = true) s (NodeProbes.next lower config s e) := by
  refine (h.toStill.seen e).mono fun x hx => hx.resolve_right fun hend => ?_
  rw [h.failed] at hend
  cases hend.2

theorem State.Dead.run (h : s.Dead) (l : List Event) :
    (l.foldl (NodeProbes.next lower config) s).Dead ∧
      Adds (fun x => ∃ p, x.about p = true) s (l.foldl (NodeProbes.next lower config) s) := by
  induction l generalizing s with
  | nil => exact ⟨h, .refl s⟩
  | cons e l ih =>
    have hstep : (NodeProbes.next lower config s e).Dead := h.next e
    exact ⟨(ih hstep).1, (h.seen e).trans (ih hstep).2⟩

theorem Reachable.told (h : Reachable lower config s) : s.Told :=
  h.invariant State.Told.init fun _ e hs _ => hs.next e

end

/-! ### Two resumes that fail -/

/-- Both resumes of a pause fail. -/
def failing : List Event :=
  arming ++ [.paused [js "b"] true, .answered 0 (some (js "timeout")) none, .answered 0 (some (js "timeout")) none]

end NodeProbes
