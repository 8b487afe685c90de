/-
LiveProbe/NodeArmed.lean

Which probes the Node agent has armed: `#ensureArmed`, `#retireAtHitLimit` and
`reconcile` of `probe-manager.ts`.

A probe is armed by one call of `#ensureArmed` at a time, and not while it is
installed.  So when one is retired at its hit limit no call for it is on its
way, and none that begins later gets past `#exhausted`.

`reconcile` goes through the probes that were installed when it was called.  A
call of `#ensureArmed` that comes to its end meanwhile compares with the old
desired probes, and what it installs is not gone through.  As long as no call
ends in that window, what is installed is what is desired.
-/
import LiveProbe.NodeHits

open JsString

namespace NodeProbes

namespace State

variable {s t u : State} {o : ℕ}

def definitionOf (s : State) (o : ℕ) : Option ProbeDefinition := (s.installations[o]?).map (·.definition)

/-- Probes are removed at most, and what is retired is exhausted. -/
structure Rests (s t : State) : Prop where
  named : ∀ id o, t.installed.get? id = some o → s.installed.get? id = some o
  same : ∀ o, t.definitionOf o = s.definitionOf o
  arms : t.arms = s.arms
  installing : t.installing = s.installing
  desired : t.desired = s.desired
  reconciles : t.reconciles = s.reconciles
  exhausted : ∀ id fingerprint, t.exhausted.get? id = some fingerprint → s.exhausted.get? id = some fingerprint ∨
    t.installed.get? id = none ∧ ∃ o, s.installed.get? id = some o ∧
      (s.definitionOf o).map (·.fingerprint) = some fingerprint
  lasts : ∀ id fingerprint, s.exhausted.get? id = some fingerprint → t.exhausted.get? id = some fingerprint ∨
    t.installed.get? id = none ∧ ∃ o, s.installed.get? id = some o

namespace Rests

theorem of_eq (hnamed : ∀ id o, t.installed.get? id = some o → s.installed.get? id = some o)
    (hsame : ∀ o, t.definitionOf o = s.definitionOf o) (harms : t.arms = s.arms) (hinstalling : t.installing = s.installing)
    (hdesired : t.desired = s.desired) (hreconciles : t.reconciles = s.reconciles) (hexhausted : t.exhausted = s.exhausted) :
    s.Rests t :=
  ⟨hnamed, hsame, harms, hinstalling, hdesired, hreconciles, fun _ _ h => .inl (hexhausted ▸ h),
    fun _ _ h => .inl (hexhausted ▸ h)⟩

/-- Neither the installations nor the names change. -/
theorem of_quiet (hinst : t.installations = s.installations) (hinstalled : t.installed = s.installed)
    (harms : t.arms = s.arms) (hinstalling : t.installing = s.installing) (hdesired : t.desired = s.desired)
    (hreconciles : t.reconciles = s.reconciles) (hexhausted : t.exhausted = s.exhausted) : s.Rests t :=
  of_eq (fun _ _ h => hinstalled ▸ h) (fun o => by rw [definitionOf, definitionOf, hinst]) harms hinstalling hdesired
    hreconciles hexhausted

theorem refl (s : State) : s.Rests s := of_quiet rfl rfl rfl rfl rfl rfl rfl

/-- A name that is gone stays gone. -/
theorem absent (h : s.Rests t) {id : JsString} (hnone : s.installed.get? id = none) : t.installed.get? id = none := by
  rcases hid : t.installed.get? id with - | o
  · rfl
  · rw [h.named id o hid] at hnone
    cases hnone

theorem trans (h : s.Rests t) (h' : t.Rests u) : s.Rests u where
  named id o hu := h.named id o (h'.named id o hu)
  same o := (h'.same o).trans (h.same o)
  arms := h'.arms.trans h.arms
  installing := h'.installing.trans h.installing
  desired := h'.desired.trans h.desired
  reconciles := h'.reconciles.trans h.reconciles
  exhausted id fingerprint hu := by
    rcases h'.exhausted id fingerprint hu with ht | ⟨hnone, o, ho, hfingerprint⟩
    · rcases h.exhausted id fingerprint ht with hs | ⟨hnone, hs⟩
      · exact .inl hs
      · exact .inr ⟨absent h' hnone, hs⟩
    · exact .inr ⟨hnone, o, h.named id o ho, h.same o ▸ hfingerprint⟩
  lasts id fingerprint hs := by
    rcases h.lasts id fingerprint hs with ht | ⟨hnone, hs⟩
    · exact (h'.lasts id fingerprint ht).imp_right fun ⟨hnone, o, ho⟩ => ⟨hnone, o, h.named id o ho⟩
    · exact .inr ⟨absent h' hnone, hs⟩

theorem foldl {α : Type*} {f : State → α → State} (hf : ∀ (s : State) a, s.Rests (f s a)) (l : List α) (s : State) :
    s.Rests (l.foldl f s) :=
  foldl_rel refl trans hf l s

theorem definitionOf_change (s : State) (which : List ℕ) {f : InstalledProbe → InstalledProbe}
    (hf : ∀ i, (f i).definition = i.definition) (o : ℕ) : (s.change which f).definitionOf o = s.definitionOf o := by
  rw [definitionOf, definitionOf, change_installations, Option.map_map]
  rcases s.installations[o]? with - | i
  · rfl
  · show some (ite _ _ _ : InstalledProbe).definition = _
    split
    · rw [hf]
      rfl
    · rfl

theorem change (s : State) (which : List ℕ) {f : InstalledProbe → InstalledProbe}
    (hf : ∀ i, (f i).definition = i.definition) : s.Rests (s.change which f) :=
  of_eq (fun _ _ h => h) (definitionOf_change s which hf) rfl rfl rfl rfl rfl

theorem retireAtHitLimit (s : State) (o : ℕ) : s.Rests (s.retireAtHitLimit o) := by
  unfold State.retireAtHitLimit
  split
  · exact refl s
  · rename_i i hi
    split
    · exact refl s
    · rename_i hname
      rw [not_not] at hname
      refine ⟨Forward.deleted s _, definitionOf_change s [o] fun _ => rfl, rfl, rfl, rfl, rfl, fun id fingerprint h => ?_,
        fun id fingerprint h => ?_⟩
      · have hset : (s.exhausted.set i.definition.id i.definition.fingerprint).get? id = some fingerprint := h
        rw [JsMap.get?_set] at hset
        split at hset
        · rename_i hid
          subst hid
          refine .inr ⟨JsMap.get?_delete_self _ _, o, hname, ?_⟩
          rw [definitionOf, hi]
          exact hset
        · exact .inl hset
      · by_cases hid : id = i.definition.id
        · subst hid
          exact .inr ⟨JsMap.get?_delete_self _ _, o, hname⟩
        · refine .inl ?_
          show (s.exhausted.set i.definition.id i.definition.fingerprint).get? id = some fingerprint
          rw [JsMap.get?_set_of_ne hid, h]

theorem limitCounted (s : State) (o : ℕ) : s.Rests (s.limitCounted o) := by
  unfold State.limitCounted
  split
  · exact retireAtHitLimit s o
  · exact refl s

theorem uninstall (s : State) (o : ℕ) : s.Rests (s.uninstall o) := by
  unfold State.uninstall
  split
  · exact refl s
  · exact of_eq (Forward.deleted s _) (definitionOf_change s [o] fun _ => rfl) rfl rfl rfl rfl rfl

/-- All probes are removed. -/
theorem of_clear (hinst : t.installations = s.clear.installations) (hinstalled : t.installed = ∅) (harms : t.arms = s.arms)
    (hinstalling : t.installing = s.installing) (hdesired : t.desired = s.desired)
    (hreconciles : t.reconciles = s.reconciles) (hexhausted : t.exhausted = s.exhausted) : s.Rests t := by
  refine of_eq (fun id o h => ?_) (fun o => ?_) harms hinstalling hdesired hreconciles hexhausted
  · rw [hinstalled] at h
    simp at h
  · rw [definitionOf, hinst]
    exact definitionOf_change s s.installed.values (f := fun i => { i with active := false, pending := 0 }) (fun _ => rfl) o

theorem settled (s : State) (candidates : List ℕ) (p : ℕ) : s.Rests ((s.releasePending candidates).setStage p .settled) :=
  (change s candidates (f := fun i => { i with pending := i.pending - 1 }) fun _ => rfl).trans
    (of_quiet rfl rfl rfl rfl rfl rfl rfl)

theorem resumeWithFallback (s : State) (p : ℕ) (k : OnResumed) : s.Rests (s.resumeWithFallback p k) := by
  unfold State.resumeWithFallback
  split
  · exact settled s _ p
  · exact of_quiet rfl rfl rfl rfl rfl rfl rfl

theorem answered (s : State) (p : ℕ) (error disconnectError : Option JsString) :
    s.Rests (s.answered p error disconnectError) := by
  rcases s.answered_cases p error disconnectError with h | ⟨_, k, -, -, h⟩
  · rw [h]
    exact refl s
  · rcases h with ⟨-, h⟩ | ⟨_, -, -, h⟩ | ⟨_, _, -, -, h⟩
    · rw [h]
      rcases k with - | ⟨captureError, capture⟩ <;> exact of_quiet rfl rfl rfl rfl rfl rfl rfl
    · rw [h]
      exact of_quiet rfl rfl rfl rfl rfl rfl rfl
    · rw [h]
      have hsettled : s.Rests (((s.see [.answer p false]).releasePending ((s.see [.answer p false]).candidatesOf p)).setStage
          p .settled) :=
        (of_quiet rfl rfl rfl rfl rfl rfl rfl : s.Rests (s.see [.answer p false])).trans (settled _ _ p)
      unfold State.handleResumeFailure
      dsimp only
      split
      · exact hsettled
      · exact hsettled.trans (of_clear rfl rfl rfl rfl rfl rfl rfl)

theorem handlePaused (s : State) (hitBreakpoints : List JsString) (token : Bool) :
    s.Rests (s.handlePaused hitBreakpoints token) := by
  have hpause (s : State) (candidates counted : List ℕ) : s.Rests (s.pause candidates counted) :=
    of_quiet rfl rfl rfl rfl rfl rfl rfl
  unfold State.handlePaused
  dsimp only
  split
  · exact (hpause s [] []).trans (resumeWithFallback _ _ _)
  · split
    · have hcounted : s.Rests (s.overBudget (s.candidates hitBreakpoints)) :=
        of_eq (fun _ _ h => h) (definitionOf_change s _ fun _ => rfl) rfl rfl rfl rfl rfl
      exact (hcounted.trans (hpause _ _ _)).trans (resumeWithFallback _ _ _)
    · have hreserve := (change s (s.candidates hitBreakpoints) (f := fun i => { i with pending := i.pending + 1 })
        fun _ => rfl).trans (hpause _ (s.candidates hitBreakpoints) [])
      split
      · exact hreserve.trans (resumeWithFallback _ _ _)
      · exact hreserve

variable {lower : JsString → JsString} {config : PauseCapture.ManagerConfig}

theorem processCandidate (captureError : Option JsString) (capture : PauseCapture.RawCapture) (p : ℕ) (s : State) (o : ℕ) :
    s.Rests (s.processCandidate lower config captureError capture p o) := by
  rcases s.processCandidate_cases o p with h | ⟨probe, detail, h⟩ | ⟨_, -, -, -, -, -, h⟩
  · rw [h]
    exact refl s
  · rw [h]
    exact of_quiet rfl rfl rfl rfl rfl rfl rfl
  · rw [h]
    have hcount := (change s [o] (f := fun i => { i with hits := i.hits + 1 }) fun _ => rfl).trans
      (u := (s.change [o] fun i => { i with hits := i.hits + 1 }).see [.hit o p]) (of_quiet rfl rfl rfl rfl rfl rfl rfl)
    exact hcount.trans (limitCounted _ o)

theorem process (s : State) (p : ℕ) : s.Rests (s.process lower config p) := by
  rcases s.process_cases lower config p with h | ⟨pause, captureError, capture, -, -, h | ⟨-, -, -, -, h⟩⟩
  · rw [h]
    exact refl s
  · rw [h]
    exact settled s _ p
  · rw [h]
    exact (settled s _ p).trans (foldl (processCandidate captureError capture p) _ _)

end Rests

end State

/-- The events of pauses, of the safety monitor and of the registry. -/
def Event.rests : Event → Bool
  | .ensureArmed _ _ | .acquired _ | .released _ | .reconcile _ | .reconcileNext _ | .stop => false
  | _ => true

theorem State.Rests.next {lower : JsString → JsString} {config : PauseCapture.ManagerConfig} (s : State) {e : Event}
    (he : e.rests = true) : s.Rests (next lower config s e) := by
  cases e with
  | ensureArmed | acquired | released | reconcile | reconcileNext | stop => cases he
  | paused hitBreakpoints token => exact handlePaused s hitBreakpoints token
  | retireCounted p =>
    show s.Rests (s.retireCounted p)
    unfold State.retireCounted
    split
    · exact refl s
    · exact .trans (t := { s with pauses := s.pauses.modify p fun pause => { pause with counted := [] } })
        (of_quiet rfl rfl rfl rfl rfl rfl rfl) (foldl limitCounted _ _)
  | captured p captureError capture =>
    show s.Rests (s.captured p captureError capture)
    unfold State.captured
    split
    · exact resumeWithFallback s p _
    · exact refl s
  | answered p error disconnectError => exact answered s p error disconnectError
  | process p => exact process s p
  | report =>
    show s.Rests s.report
    unfold State.report
    split
    · exact refl s
    · split
      · exact of_quiet rfl rfl rfl rfl rfl rfl rfl
      · exact .trans (t := { s with failure := none }) (of_quiet rfl rfl rfl rfl rfl rfl rfl)
          (foldl (f := fun s probe => s.error probe _) (fun _ _ => of_quiet rfl rfl rfl rfl rfl rfl rfl) _ _)
  | retired o error =>
    show s.Rests (s.retired o error)
    unfold State.retired
    dsimp only
    split
    · exact refl s
    · split <;> exact of_quiet rfl rfl rfl rfl rfl rfl rfl
  | registry e =>
    show s.Rests (ite _ _ _)
    split <;> exact of_quiet rfl rfl rfl rfl rfl rfl rfl
  | suspendAll detail =>
    show s.Rests (s.suspendAll detail)
    unfold State.suspendAll
    split
    · exact refl s
    · exact of_clear rfl rfl rfl rfl rfl rfl rfl
  | rearm =>
    show s.Rests s.rearm
    unfold State.rearm
    split
    · exact refl s
    · exact of_quiet rfl rfl rfl rfl rfl rfl rfl

/-! ### One call at a time -/

namespace State

variable {lower : JsString → JsString} {config : PauseCapture.ManagerConfig} {s t : State} {a : ℕ} {probe : ProbeDefinition}
  {call : ℕ}

/-- A call of `#ensureArmed` for the probe is on its way. -/
def Arming (s : State) (a : ℕ) (probe : ProbeDefinition) : Prop :=
  ∃ call stage, s.arms[a]? = some ⟨probe, call, stage⟩ ∧ stage ≠ .finished

/-- Calls are for different probes, which are not installed; and what is exhausted
is neither installed nor being armed. -/
structure Armed (s : State) : Prop where
  busy : ∀ a probe, s.Arming a probe → probe.id ∈ s.installing
  single : ∀ a b probe probe', s.Arming a probe → s.Arming b probe' → probe.id = probe'.id → a = b
  apart : ∀ a probe, s.Arming a probe → s.installed.get? probe.id = none
  spent : ∀ id fingerprint, s.exhausted.get? id = some fingerprint →
    (∀ o, s.installed.get? id = some o → (s.definitionOf o).map (·.fingerprint) ≠ some fingerprint) ∧
      ∀ a probe, s.Arming a probe → probe.id = id → probe.fingerprint ≠ fingerprint

theorem Armed.init : Armed {} where
  busy a probe h := by
    obtain ⟨_, _, h, -⟩ := h
    simp at h
  single a b probe probe' h := by
    obtain ⟨_, _, h, -⟩ := h
    simp at h
  apart a probe h := by
    obtain ⟨_, _, h, -⟩ := h
    simp at h
  spent id fingerprint h := by simp at h

/-- Fewer calls, names and exhausted probes. -/
theorem Armed.mono (hs : s.Armed) (harming : ∀ a probe, t.Arming a probe → s.Arming a probe)
    (hinstalling : ∀ a probe, t.Arming a probe → probe.id ∈ t.installing)
    (hnamed : ∀ id o, t.installed.get? id = some o → s.installed.get? id = some o)
    (hsame : ∀ o, t.definitionOf o = s.definitionOf o)
    (hexhausted : ∀ id fingerprint, t.exhausted.get? id = some fingerprint → s.exhausted.get? id = some fingerprint) :
    t.Armed := by
  refine ⟨hinstalling, fun a b probe probe' ha hb => hs.single a b probe probe' (harming a probe ha) (harming b probe' hb),
    fun a probe ha => ?_, fun id fingerprint h => ?_⟩
  · rcases hid : t.installed.get? probe.id with - | o
    · rfl
    · have hnone := hs.apart a probe (harming a probe ha)
      rw [hnamed _ o hid] at hnone
      cases hnone
  · obtain ⟨hinstalled, hcalls⟩ := hs.spent id fingerprint (hexhausted id fingerprint h)
    exact ⟨fun o ho => hsame o ▸ hinstalled o (hnamed id o ho), fun a probe ha => hcalls a probe (harming a probe ha)⟩

/-- Where probes are only removed, a probe that is retired had no call on its way. -/
theorem Armed.rests (hs : s.Armed) (h : s.Rests t) : t.Armed := by
  have harming (a : ℕ) (probe : ProbeDefinition) : t.Arming a probe ↔ s.Arming a probe := by rw [Arming, Arming, h.arms]
  refine ⟨fun a probe ha => ?_, fun a b probe probe' ha hb => ?_, fun a probe ha => ?_, fun id fingerprint hspent => ?_⟩
  · rw [h.installing]
    exact hs.busy a probe ((harming a probe).mp ha)
  · exact hs.single a b probe probe' ((harming a probe).mp ha) ((harming b probe').mp hb)
  · rcases hid : t.installed.get? probe.id with - | o
    · rfl
    · have hnone := hs.apart a probe ((harming a probe).mp ha)
      rw [h.named _ o hid] at hnone
      cases hnone
  · rcases h.exhausted id fingerprint hspent with hbefore | ⟨hnone, o, ho, -⟩
    · obtain ⟨hinstalled, hcalls⟩ := hs.spent id fingerprint hbefore
      exact ⟨fun o ho => h.same o ▸ hinstalled o (h.named id o ho), fun a probe ha => hcalls a probe ((harming a probe).mp ha)⟩
    · refine ⟨fun o' ho' => ?_, fun a probe ha hid => ?_⟩
      · rw [hnone] at ho'
        cases ho'
      · have habsent := hs.apart a probe ((harming a probe).mp ha)
        rw [hid, ho] at habsent
        cases habsent

/-! ### Steps -/

theorem setArm_arms (s : State) (a : ℕ) (stage : ArmStage) (b : ℕ) :
    (s.setArm a stage).arms[b]? = (s.arms[b]?).map fun arm => if a = b then { arm with stage := stage } else arm := by
  show (s.arms.modify a _)[b]? = _
  rw [List.getElem?_modify]
  rfl

/-- A call that is on its way was so before. -/
theorem Arming.of_setArm {stage : ArmStage} {b : ℕ} (harm : s.Arming a probe) {probe' : ProbeDefinition}
    (h : (s.setArm a stage).Arming b probe') : s.Arming b probe' ∧ (stage = .finished → b ≠ a) := by
  obtain ⟨call, stage', hb, hstage'⟩ := h
  rw [setArm_arms] at hb
  obtain ⟨arm, harm', heq⟩ := Option.map_eq_some_iff.mp hb
  by_cases hab : a = b
  · subst hab
    obtain ⟨call', stage'', ha, hlive⟩ := harm
    rw [ha] at harm'
    cases harm'
    rw [if_pos rfl] at heq
    cases heq
    exact ⟨⟨_, _, ha, hlive⟩, fun hfinished => absurd hfinished hstage'⟩
  · rw [if_neg hab] at heq
    subst heq
    exact ⟨⟨_, _, harm', hstage'⟩, fun _ => Ne.symm hab⟩

/-- A call comes to its end. -/
theorem Armed.finishArm (hs : s.Armed) (ha : s.Arming a probe) : (s.finishArm a probe.id).Armed := by
  have harming : ∀ b probe', (s.finishArm a probe.id).Arming b probe' → s.Arming b probe' ∧ b ≠ a := by
    intro b probe' h
    have h : (s.setArm a .finished).Arming b probe' := h
    obtain ⟨hbefore, hne⟩ := Arming.of_setArm ha h
    exact ⟨hbefore, hne rfl⟩
  refine hs.mono (fun b probe' h => (harming b probe' h).1) (fun b probe' h => ?_) (fun _ _ h => h) (fun _ => rfl)
    fun _ _ h => h
  obtain ⟨hbefore, hne⟩ := harming b probe' h
  refine List.mem_filter.mpr ⟨hs.busy b probe' hbefore, decide_eq_true fun hid => hne ?_⟩
  exact hs.single b a probe' probe hbefore ha hid

theorem install_definitionOf (s : State) (probe : ProbeDefinition) (breakpointId : JsString) (o : ℕ) :
    (s.install probe breakpointId).definitionOf o =
      if o = s.installations.length then some probe else s.definitionOf o := by
  rw [definitionOf, definitionOf]
  show ((s.installations ++ _)[o]?).map _ = _
  rcases Nat.lt_trichotomy o s.installations.length with hlt | rfl | hgt
  · rw [List.getElem?_append_left hlt, if_neg hlt.ne]
  · rw [List.getElem?_concat_length, if_pos rfl]
    rfl
  · rw [List.getElem?_eq_none (by simp; omega), List.getElem?_eq_none hgt.le, if_neg hgt.ne']

/-- A call installs its probe: no other call is for it, and it is not exhausted. -/
theorem Armed.install (hs : s.Armed) (hsound : s.Sound []) (ha : s.Arming a probe) (breakpointId : JsString) :
    ((s.install probe breakpointId).finishArm a probe.id).Armed := by
  have hother : ∀ b probe', ((s.install probe breakpointId).finishArm a probe.id).Arming b probe' →
      s.Arming b probe' ∧ probe'.id ≠ probe.id := by
    intro b probe' h
    have hfinish : (s.setArm a .finished).Arming b probe' := h
    obtain ⟨hbefore, hne⟩ := Arming.of_setArm ha hfinish
    exact ⟨hbefore, fun hid => hne rfl (hs.single b a probe' probe hbefore ha hid)⟩
  have hnamed : ∀ id, ((s.install probe breakpointId).finishArm a probe.id).installed.get? id =
      if id = probe.id then some s.installations.length else s.installed.get? id := by
    intro id
    show (s.installed.set probe.id s.installations.length).get? id = _
    rw [JsMap.get?_set]
  refine ⟨fun b probe' h => ?_, fun b c probe' probe'' hb hc hid => ?_, fun b probe' h => ?_, fun id fingerprint h => ?_⟩
  · obtain ⟨hbefore, hne⟩ := hother b probe' h
    exact List.mem_filter.mpr ⟨hs.busy b probe' hbefore, decide_eq_true hne⟩
  · exact hs.single b c probe' probe'' (hother b probe' hb).1 (hother c probe'' hc).1 hid
  · obtain ⟨hbefore, hne⟩ := hother b probe' h
    rw [hnamed, if_neg hne]
    exact hs.apart b probe' hbefore
  · obtain ⟨hinstalled, hcalls⟩ := hs.spent id fingerprint h
    refine ⟨fun o ho => ?_, fun b probe' hb => hcalls b probe' (hother b probe' hb).1⟩
    show ((s.install probe breakpointId).definitionOf o).map _ ≠ _
    rw [hnamed] at ho
    rw [install_definitionOf]
    split at ho
    · rename_i hid
      obtain rfl := Option.some.inj ho
      rw [if_pos rfl]
      exact fun heq => hcalls a probe ha hid.symm (Option.some.inj heq)
    · rw [if_neg (hsound.lt_length ho).ne]
      exact hinstalled o ho

theorem Armed.ensureArmed (hs : s.Armed) (probe : ProbeDefinition) (resolution : Resolution) :
    (s.ensureArmed probe resolution).Armed := by
  unfold State.ensureArmed
  split
  · exact hs
  · rename_i hfree
    have hfree : s.installed.has probe.id = false ∧ probe.id ∉ s.installing ∧
        s.exhausted.get? probe.id ≠ some probe.fingerprint := by
      simp only [Bool.or_eq_true, decide_eq_true_eq, not_or, Bool.not_eq_true] at hfree
      exact ⟨hfree.1.1.1.1.1, hfree.1.1.1.1.2, hfree.1.1.1.2⟩
    obtain ⟨habsent, hidle, hunspent⟩ := hfree
    have habsent := JsMap.has_eq_false_iff.mp habsent
    dsimp only
    split
    · exact hs.rests (.of_quiet rfl rfl rfl rfl rfl rfl rfl)
    · exact hs.rests (.of_quiet rfl rfl rfl rfl rfl rfl rfl)
    · -- the new call is the last one
      rename_i script
      generalize ht : ({ s with
        installing := s.installing ++ [probe.id]
        arms := s.arms ++ [⟨probe, s.registry.calls.length, .acquiring⟩]
        registry := s.registry.acquire
          ⟨probe.toPlaced, script, (probe.runtimeLine.getD probe.line : ℕ), (probe.runtimeColumn.getD 0 : ℕ)⟩ } : State) = t
      have harms : t.arms = s.arms ++ [⟨probe, s.registry.calls.length, .acquiring⟩] := by rw [← ht]
      have hinstalling : t.installing = s.installing ++ [probe.id] := by rw [← ht]
      have hcases : ∀ b probe', t.Arming b probe' → s.Arming b probe' ∨ b = s.arms.length ∧ probe' = probe := by
        rintro b probe' ⟨call, stage, hb, hstage⟩
        rw [harms] at hb
        rcases Nat.lt_or_ge b s.arms.length with hlt | hge
        · rw [List.getElem?_append_left hlt] at hb
          exact .inl ⟨call, stage, hb, hstage⟩
        · have hlen := (List.getElem?_eq_some_iff.mp hb).1
          rw [List.length_append] at hlen
          obtain rfl : b = s.arms.length := by
            have : [(⟨probe, s.registry.calls.length, .acquiring⟩ : Arm)].length = 1 := rfl
            omega
          rw [List.getElem?_concat_length] at hb
          cases hb
          exact .inr ⟨rfl, rfl⟩
      have hold : ∀ b probe', s.Arming b probe' → probe'.id ≠ probe.id := fun b probe' h hid =>
        hidle (hid ▸ hs.busy b probe' h)
      refine ⟨fun b probe' h => ?_, fun b c probe' probe'' hb hc hid => ?_, fun b probe' h => ?_, fun id fingerprint h => ?_⟩
      · rw [hinstalling]
        rcases hcases b probe' h with hbefore | ⟨-, rfl⟩
        · exact List.mem_append_left _ (hs.busy b probe' hbefore)
        · exact List.mem_append_right _ (List.mem_singleton_self _)
      · rcases hcases b probe' hb with hb | ⟨rfl, rfl⟩
        · rcases hcases c probe'' hc with hc | ⟨rfl, rfl⟩
          · exact hs.single b c probe' probe'' hb hc hid
          · exact absurd hid (hold b probe' hb)
        · rcases hcases c probe'' hc with hc | ⟨rfl, rfl⟩
          · exact absurd hid.symm (hold c probe'' hc)
          · rfl
      · have hsame : t.installed = s.installed := by rw [← ht]
        rw [hsame]
        rcases hcases b probe' h with hbefore | ⟨-, rfl⟩
        · exact hs.apart b probe' hbefore
        · exact habsent
      · have hexhausted : t.exhausted = s.exhausted := by rw [← ht]
        rw [hexhausted] at h
        obtain ⟨hinstalled, hcalls⟩ := hs.spent id fingerprint h
        refine ⟨fun o ho => ?_, fun b probe' hb hid => ?_⟩
        · subst ht
          exact hinstalled o ho
        · rcases hcases b probe' hb with hb | ⟨-, rfl⟩
          · exact hcalls b probe' hb hid
          · rintro rfl
            exact hunspent (hid ▸ h)

/-- What `#ensureArmed` does once `#acquireBreakpoint` has returned. -/
theorem acquired_cases (s : State) (a : ℕ) :
    s.acquired a = s ∨ ∃ probe, s.Arming a probe ∧
      (s.acquired a = s.finishArm a probe.id ∨
        (∃ registry, s.acquired a = State.setArm { s with registry := registry } a .releasing) ∨
        (∃ current, s.desired.get? probe.id = some current ∧ current.fingerprint = probe.fingerprint) ∧
          s.stopped = false ∧ s.suspended = false ∧
          ∃ breakpointId, s.acquired a = (s.install probe breakpointId).finishArm a probe.id) := by
  unfold State.acquired
  split
  · rename_i probe call harm
    split
    · exact .inr ⟨probe, ⟨call, _, harm, fun h => by cases h⟩, .inl rfl⟩
    · refine .inr ⟨probe, ⟨call, _, harm, fun h => by cases h⟩, .inr ?_⟩
      split
      · exact .inl ⟨_, rfl⟩
      · rename_i hwanted
        simp only [Bool.or_eq_true, not_or, Bool.not_eq_true] at hwanted
        obtain ⟨⟨hdesired, hstopped⟩, hsuspended⟩ := hwanted
        refine .inr ⟨?_, hstopped, hsuspended, _, rfl⟩
        rcases hcurrent : s.desired.get? probe.id with - | current
        · rw [hcurrent] at hdesired
          cases hdesired
        · rw [hcurrent, Option.all_some, decide_eq_false_iff_not, not_not] at hdesired
          exact ⟨current, rfl, hdesired⟩
    · exact .inl rfl
  · exact .inl rfl

theorem Armed.acquired (hs : s.Armed) (hsound : s.Sound []) (a : ℕ) : (s.acquired a).Armed := by
  rcases s.acquired_cases a with h | ⟨probe, ha, h | ⟨registry, h⟩ | ⟨-, -, -, breakpointId, h⟩⟩
  · rw [h]
    exact hs
  · rw [h]
    exact hs.finishArm ha
  · rw [h]
    have harming : ∀ b probe', (State.setArm { s with registry := registry } a .releasing).Arming b probe' →
        s.Arming b probe' := fun b probe' hb => by
      have hb : (s.setArm a .releasing).Arming b probe' := hb
      exact (Arming.of_setArm ha hb).1
    exact hs.mono harming (fun b probe' hb => hs.busy b probe' (harming b probe' hb)) (fun _ _ h => h) (fun _ => rfl)
      fun _ _ h => h
  · rw [h]
    exact hs.install hsound ha breakpointId

theorem Armed.released (hs : s.Armed) (a : ℕ) : (s.released a).Armed := by
  unfold State.released
  split
  · rename_i probe call harm
    exact hs.finishArm ⟨call, _, harm, fun h => by cases h⟩
  · exact hs

/-- What `reconcile` does after an await. -/
theorem reconcileNext_cases (s : State) (r : ℕ) :
    (s.reconcileNext r = s ∧ ∀ job, s.reconciles[r]? = some job → job.finished = true) ∨
      (∃ probes id o rest, s.reconciles[r]? = some ⟨probes, (id, o) :: rest, false⟩ ∧
        ((∃ probe, s.definitionOf o = some probe ∧ gone probes id probe.fingerprint = true ∧
            s.reconcileNext r = (s.setReconciling r ⟨probes, rest, false⟩).uninstall o) ∨
          (∀ probe, s.definitionOf o = some probe → gone probes id probe.fingerprint = false) ∧
            s.reconcileNext r = s.setReconciling r ⟨probes, rest, false⟩)) ∨
      ∃ probes, s.reconciles[r]? = some ⟨probes, [], false⟩ ∧
        s.reconcileNext r =
          { s.setReconciling r ⟨probes, [], true⟩ with
            exhausted := s.exhausted.filter fun id fingerprint => !gone probes id fingerprint
            desired := .ofEntries (probes.map fun probe => (probe.id, probe)) } := by
  unfold State.reconcileNext
  split
  · rename_i probes id o rest hr
    refine .inr (.inl ⟨probes, id, o, rest, hr, ?_⟩)
    dsimp only
    have hsame : (s.setReconciling r ⟨probes, rest, false⟩).installations[o]? = s.installations[o]? := rfl
    rw [hsame, definitionOf]
    rcases s.installations[o]? with - | i
    · refine .inr ⟨fun _ h => ?_, rfl⟩
      cases h
    · rw [Option.any_some]
      split
      · rename_i hgone
        exact .inl ⟨i.definition, rfl, hgone, rfl⟩
      · rename_i hgone
        refine .inr ⟨fun probe h => ?_, rfl⟩
        cases h
        exact Bool.not_eq_true _ ▸ hgone
  · rename_i probes hr
    exact .inr (.inr ⟨probes, hr, rfl⟩)
  · rename_i hcons hnil
    refine .inl ⟨rfl, fun ⟨probes, rest, finished⟩ hr => ?_⟩
    rcases finished with - | -
    · rcases rest with - | ⟨⟨id, o⟩, rest⟩
      · exact (hnil probes hr).elim
      · exact (hcons probes id o rest hr).elim
    · rfl

theorem Armed.quiet (hs : s.Armed) (harms : t.arms = s.arms) (hinstalling : t.installing = s.installing)
    (hnamed : ∀ id o, t.installed.get? id = some o → s.installed.get? id = some o)
    (hsame : ∀ o, t.definitionOf o = s.definitionOf o)
    (hexhausted : ∀ id fingerprint, t.exhausted.get? id = some fingerprint → s.exhausted.get? id = some fingerprint) :
    t.Armed := by
  have harming (b : ℕ) (probe : ProbeDefinition) (h : t.Arming b probe) : s.Arming b probe := by
    rw [Arming, harms] at h
    exact h
  exact hs.mono harming (fun b probe h => hinstalling ▸ hs.busy b probe (harming b probe h)) hnamed hsame hexhausted

theorem Armed.reconcile (hs : s.Armed) (probes : List ProbeDefinition) : (s.reconcile probes).Armed := by
  unfold State.reconcile
  split
  · exact hs
  · exact hs.quiet rfl rfl (fun _ _ h => h) (fun _ => rfl) fun _ _ h => h

theorem Armed.reconcileNext (hs : s.Armed) (r : ℕ) : (s.reconcileNext r).Armed := by
  have hset (reconciling : Reconciling) : (s.setReconciling r reconciling).Armed :=
    hs.quiet rfl rfl (fun _ _ h => h) (fun _ => rfl) fun _ _ h => h
  rcases s.reconcileNext_cases r with ⟨h, -⟩ | ⟨probes, id, o, rest, -, ⟨_, -, -, h⟩ | ⟨-, h⟩⟩ | ⟨probes, -, h⟩
  · rw [h]
    exact hs
  · rw [h]
    exact (hset _).rests (.uninstall _ o)
  · rw [h]
    exact hset _
  · rw [h]
    refine hs.quiet rfl rfl (fun _ _ h => h) (fun _ => rfl) fun id fingerprint h => ?_
    have h : (s.exhausted.filter fun id fingerprint => !gone probes id fingerprint).get? id = some fingerprint := h
    rw [JsMap.get?_filter, Option.filter_eq_some_iff] at h
    exact h.1

theorem Armed.stop (hs : s.Armed) : s.stop.Armed := by
  unfold State.stop
  split
  · exact hs
  · refine hs.quiet rfl rfl (fun id o h => ?_) (fun o => ?_) fun _ _ h => h
    · have h : (∅ : JsMap JsString ℕ).get? id = some o := h
      simp at h
    · exact Rests.definitionOf_change s s.installed.values (f := fun i => { i with active := false, pending := 0 })
        (fun _ => rfl) o

theorem Armed.next (hs : s.Armed) (hsound : s.Sound []) (e : Event) : (next lower config s e).Armed := by
  by_cases he : e.rests = true
  · exact hs.rests (.next s he)
  · cases e with
    | ensureArmed probe resolution => exact hs.ensureArmed probe resolution
    | acquired a => exact hs.acquired hsound a
    | released a => exact hs.released a
    | reconcile probes => exact hs.reconcile probes
    | reconcileNext r => exact hs.reconcileNext r
    | stop => exact hs.stop
    | paused | retireCounted | captured | answered | process | report | retired | registry | suspendAll | rearm =>
      exact absurd rfl he

end State

/-! ### What is exhausted -/

section

variable {lower : JsString → JsString} {config : PauseCapture.ManagerConfig} {s : State} {id fingerprint : JsString}

theorem Reachable.armed (h : Reachable lower config s) : s.Armed := by
  have hboth : s.Sound [] ∧ s.Armed := h.invariant (I := fun s => s.Sound [] ∧ s.Armed) ⟨State.Sound.init, State.Armed.init⟩
    fun _ e hs _ => ⟨hs.1.next e, hs.2.next hs.1 e⟩
  exact hboth.2

variable (lower config) in
/-- The definitions of the installations stay, and a new one is of a call on its way. -/
theorem next_definitionOf (s : State) (e : Event) (o : ℕ) :
    (next lower config s e).definitionOf o = s.definitionOf o ∨
      o = s.installations.length ∧ ∃ a probe, s.Arming a probe ∧ (next lower config s e).definitionOf o = some probe := by
  by_cases he : e.rests = true
  · exact .inl ((State.Rests.next s he).same o)
  · cases e with
    | paused | retireCounted | captured | answered | process | report | retired | registry | suspendAll | rearm =>
      exact absurd rfl he
    | ensureArmed probe resolution =>
      refine .inl ?_
      show (s.ensureArmed probe resolution).definitionOf o = _
      unfold State.ensureArmed
      split
      · rfl
      · dsimp only
        split <;> rfl
    | acquired a =>
      rcases s.acquired_cases a with h | ⟨probe, ha, h | ⟨registry, h⟩ | ⟨-, -, -, breakpointId, h⟩⟩
      · refine .inl ?_
        show (s.acquired a).definitionOf o = _
        rw [h]
      · refine .inl ?_
        show (s.acquired a).definitionOf o = _
        rw [h]
        rfl
      · refine .inl ?_
        show (s.acquired a).definitionOf o = _
        rw [h]
        rfl
      · have hsame : (s.acquired a).definitionOf o = (s.install probe breakpointId).definitionOf o := by
          rw [h]
          rfl
        rw [State.install_definitionOf] at hsame
        split at hsame
        · rename_i hlast
          exact .inr ⟨hlast, a, probe, ha, hsame⟩
        · exact .inl hsame
    | released a =>
      refine .inl ?_
      show (s.released a).definitionOf o = _
      unfold State.released
      split <;> rfl
    | reconcile probes =>
      refine .inl ?_
      show (s.reconcile probes).definitionOf o = _
      unfold State.reconcile
      split <;> rfl
    | reconcileNext r =>
      refine .inl ?_
      show (s.reconcileNext r).definitionOf o = _
      rcases s.reconcileNext_cases r with ⟨h, -⟩ | ⟨probes, id, o', rest, -, ⟨_, -, -, h⟩ | ⟨-, h⟩⟩ | ⟨probes, -, h⟩
      · rw [h]
      · rw [h]
        exact (State.Rests.uninstall _ o').same o
      · rw [h]
        rfl
      · rw [h]
        rfl
    | stop =>
      refine .inl ?_
      show s.stop.definitionOf o = _
      unfold State.stop
      split
      · rfl
      · exact State.Rests.definitionOf_change s s.installed.values (f := fun i => { i with active := false, pending := 0 })
          (fun _ => rfl) o

/-- A reconcile that finds the exhausted probe gone comes to its end, or another
definition of the probe is removed. -/
def Frees (lower : JsString → JsString) (config : PauseCapture.ManagerConfig) (id fingerprint : JsString) (s : State)
    (e : Event) : Prop :=
  (∃ r probes, e = .reconcileNext r ∧ s.reconciles[r]? = some ⟨probes, [], false⟩ ∧
    State.gone probes id fingerprint = true) ∨
  (∃ o, s.installed.get? id = some o) ∧ (next lower config s e).installed.get? id = none

theorem exhausted_next {e : Event} (h : s.exhausted.get? id = some fingerprint) (he : ¬ Frees lower config id fingerprint s e) :
    (next lower config s e).exhausted.get? id = some fingerprint := by
  by_cases hrests : e.rests = true
  · rcases (State.Rests.next s hrests).lasts id fingerprint h with hlasts | ⟨hnone, hnamed⟩
    · exact hlasts
    · exact absurd (.inr ⟨hnamed, hnone⟩) he
  · cases e with
    | paused | retireCounted | captured | answered | process | report | retired | registry | suspendAll | rearm =>
      exact absurd rfl hrests
    | ensureArmed probe resolution =>
      show (s.ensureArmed probe resolution).exhausted.get? id = _
      unfold State.ensureArmed
      split
      · exact h
      · dsimp only
        split <;> exact h
    | acquired a =>
      show (s.acquired a).exhausted.get? id = _
      rcases s.acquired_cases a with heq | ⟨probe, -, heq | ⟨registry, heq⟩ | ⟨-, -, -, breakpointId, heq⟩⟩ <;> rw [heq] <;>
        exact h
    | released a =>
      show (s.released a).exhausted.get? id = _
      unfold State.released
      split <;> exact h
    | reconcile probes =>
      show (s.reconcile probes).exhausted.get? id = _
      unfold State.reconcile
      split <;> exact h
    | reconcileNext r =>
      show (s.reconcileNext r).exhausted.get? id = _
      rcases s.reconcileNext_cases r with ⟨heq, -⟩ | ⟨probes, id', o, rest, -, ⟨_, -, -, heq⟩ | ⟨-, heq⟩⟩ | ⟨probes, hr, heq⟩
      · rw [heq]
        exact h
      · rw [heq]
        unfold State.uninstall
        split <;> exact h
      · rw [heq]
        exact h
      · rw [heq]
        show (s.exhausted.filter fun id fingerprint => !State.gone probes id fingerprint).get? id = _
        rw [JsMap.get?_filter, Option.filter_eq_some_iff]
        refine ⟨h, ?_⟩
        rw [Bool.not_eq_true', ← Bool.not_eq_true]
        exact fun hgone => he (.inl ⟨r, probes, rfl, hr, hgone⟩)
    | stop =>
      show s.stop.exhausted.get? id = _
      unfold State.stop
      split <;> exact h

theorem run_definitionOf {o : ℕ} {probe : ProbeDefinition} (l : List Event) (h : s.definitionOf o = some probe) :
    (run lower config s l).definitionOf o = some probe := by
  induction l generalizing s with
  | nil => exact h
  | cons e l ih =>
    refine ih ?_
    rcases next_definitionOf lower config s e o with hsame | ⟨rfl, -⟩
    · exact hsame.trans h
    · rw [State.definitionOf, List.getElem?_eq_none le_rfl] at h
      cases h

/-- What is installed anew was armed by a call on its way while the probe was exhausted. -/
theorem installed_anew {o : ℕ} {probe : ProbeDefinition} {l : List Event} (h : Reachable lower config s)
    (hspent : s.exhausted.get? id = some fingerprint)
    (hl : AllOk (next lower config) (fun s e => ¬ Frees lower config id fingerprint s e) s l)
    (hnone : s.definitionOf o = none) (hlast : (run lower config s l).definitionOf o = some probe) (hid : probe.id = id) :
    probe.fingerprint ≠ fingerprint := by
  induction l generalizing s with
  | nil =>
    have hlast : s.definitionOf o = some probe := hlast
    rw [hnone] at hlast
    cases hlast
  | cons e l ih =>
    rcases next_definitionOf lower config s e o with hsame | ⟨-, a, probe', ha, hprobe⟩
    · exact ih (h.step e trivial) (exhausted_next hspent hl.1) hl.2 (hsame.trans hnone) hlast
    · have hprobe : (run lower config s (e :: l)).definitionOf o = some probe' := run_definitionOf l hprobe
      rw [hlast] at hprobe
      cases hprobe
      exact (h.armed.spent id fingerprint hspent).2 a probe ha hid

/-- **A hit limit lasts.**  From when a probe is exhausted until a reconcile that
finds it gone or changed comes to its end, it is not installed, and nothing that
is installed anew is of its definition. -/
theorem limit_lasts (h : Reachable lower config s) (hspent : s.exhausted.get? id = some fingerprint) {l : List Event}
    (hl : AllOk (next lower config) (fun s e => ¬ Frees lower config id fingerprint s e) s l) :
    (run lower config s l).exhausted.get? id = some fingerprint ∧
      (∀ o i, (run lower config s l).installed.get? id = some o → (run lower config s l).installations[o]? = some i →
        i.definition.fingerprint ≠ fingerprint) ∧
      ∀ o i, s.installations.length ≤ o → (run lower config s l).installations[o]? = some i → i.definition.id = id →
        i.definition.fingerprint ≠ fingerprint := by
  have hexhausted : (run lower config s l).exhausted.get? id = some fingerprint :=
    hl.invariant (I := fun s => s.exhausted.get? id = some fingerprint) (fun _ _ hs he => exhausted_next hs he) hspent
  refine ⟨hexhausted, fun o i ho hi heq => ?_, fun o i ho hi => installed_anew (o := o) h hspent hl ?_ ?_⟩
  · refine ((h.run l).armed.spent id fingerprint hexhausted).1 o ho ?_
    rw [State.definitionOf, hi, ← heq]
    rfl
  · rw [State.definitionOf, List.getElem?_eq_none ho]
    rfl
  · rw [State.definitionOf, hi]
    rfl

end

/-- The second pause counts as well, and the limit is reached. -/
def exhausting : List Event := counting ++ [.answered 1 none none, .process 1]

/-- The probe is wanted as before, and armed once more. -/
def wantedAgain : List Event :=
  [.reconcile [sampleProbe], .reconcileNext 1, .ensureArmed sampleProbe (.found ⟨js "7", js "file:///srv/app.js"⟩)]

theorem exhausting_lasts :
    (run id PauseCapture.defaultManagerConfig (run id PauseCapture.defaultManagerConfig {} exhausting)
      wantedAgain).exhausted.get? (js "p") = some (js "v1") := by
  have h : Reachable id PauseCapture.defaultManagerConfig (run id PauseCapture.defaultManagerConfig {} exhausting) :=
    Reachable.run .init exhausting
  have hnone {s : State} {e : Event} (hr : ∀ r, e ≠ .reconcileNext r) (hs : s.installed.get? (js "p") = none) :
      ¬ Frees id PauseCapture.defaultManagerConfig (js "p") (js "v1") s e := by
    rintro (⟨r, _, h, -⟩ | ⟨⟨o, h⟩, -⟩)
    · exact hr r h
    · rw [hs] at h
      cases h
  have hl : AllOk (next id PauseCapture.defaultManagerConfig)
      (fun s e => ¬ Frees id PauseCapture.defaultManagerConfig (js "p") (js "v1") s e)
      (run id PauseCapture.defaultManagerConfig {} exhausting) wantedAgain := by
    refine ⟨hnone (fun r h => by cases h) (by decide), ?_, hnone (fun r h => by cases h) (by decide), trivial⟩
    rintro (⟨r, probes, h, hr, hgone⟩ | ⟨⟨o, h⟩, -⟩)
    · cases h
      cases hr
      exact absurd hgone (by decide)
    · have h : none = some o := h
      cases h
  exact (limit_lasts h (by decide) hl).1

end NodeProbes
