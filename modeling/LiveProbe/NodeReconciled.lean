/-
LiveProbe/NodeReconciled.lean

What a call of `reconcile` of the Node agent settles.

The call goes through the probes that were installed when it began, one turn
after the other, and takes over the desired probes in its last turn.  A call of
`#ensureArmed` that ends in between compares with the probes desired before, so
it can install a probe that nobody wants any more and that is not gone through.
Where none ends in between, the installed probes are wanted ones from the last
turn on, whatever was installed before and whatever the other events are.
-/
import LiveProbe.NodeArmed

open JsString

namespace NodeProbes

/-- A turn of the call. -/
def Event.turns (r : ℕ) : Event → Bool
  | .reconcileNext r' => r' = r
  | _ => false

/-- No other call begins, and no probe is installed before the last turn. -/
def Undisturbed (r : ℕ) (s : State) (e : Event) : Prop :=
  (∀ probes, e ≠ .reconcile probes) ∧
    ∀ a, e = .acquired a → ∃ job, s.reconciles[r]? = some job ∧ job.finished = true

namespace State

variable {lower : JsString → JsString} {config : PauseCapture.ManagerConfig} {s t : State} {probes : List ProbeDefinition}
  {entries : List (JsString × ℕ)} {r k : ℕ}

/-- After `k` turns of the call for `probes`; `entries` were installed when it began. -/
structure Settling (probes : List ProbeDefinition) (entries : List (JsString × ℕ)) (r k : ℕ) (s : State) : Prop where
  job : s.reconciles[r]? = some ⟨probes, entries.drop k, decide (entries.length < k)⟩
  others : ∀ r' job, r' ≠ r → s.reconciles[r']? = some job → job.finished = true
  kept : ∀ id o probe, s.installed.get? id = some o → s.definitionOf o = some probe →
    (id, o) ∈ entries.drop k ∨ gone probes id probe.fingerprint = false
  desired : entries.length < k → s.stopped = false → ∀ id, s.desired.get? id = wanted probes id

namespace Settling

theorem quiet (hs : s.Settling probes entries r k) (hnamed : ∀ id o, t.installed.get? id = some o → s.installed.get? id = some o)
    (hsame : ∀ o, t.definitionOf o = s.definitionOf o) (hreconciles : t.reconciles = s.reconciles)
    (hdesired : t.stopped = false → t.desired = s.desired ∧ s.stopped = false) : t.Settling probes entries r k := by
  refine ⟨hreconciles ▸ hs.job, hreconciles ▸ hs.others, fun id o probe hid ho => ?_, fun hlt hstopped id => ?_⟩
  · exact hs.kept id o probe (hnamed id o hid) (hsame o ▸ ho)
  · obtain ⟨hd, hstopped⟩ := hdesired hstopped
    rw [hd]
    exact hs.desired hlt hstopped id

theorem ensureArmed (hs : s.Settling probes entries r k) (probe : ProbeDefinition) (resolution : Resolution) :
    (s.ensureArmed probe resolution).Settling probes entries r k := by
  unfold State.ensureArmed
  split
  · exact hs
  · dsimp only
    split <;> exact hs.quiet (fun _ _ h => h) (fun _ => rfl) rfl fun h => ⟨rfl, h⟩

theorem finishArm (hs : s.Settling probes entries r k) (a : ℕ) (probeId : JsString) :
    (s.finishArm a probeId).Settling probes entries r k :=
  hs.quiet (fun _ _ h => h) (fun _ => rfl) rfl fun h => ⟨rfl, h⟩

theorem released (hs : s.Settling probes entries r k) (a : ℕ) : (s.released a).Settling probes entries r k := by
  unfold State.released
  split
  · exact hs.finishArm a _
  · exact hs

theorem stop (hs : s.Settling probes entries r k) : s.stop.Settling probes entries r k := by
  unfold State.stop
  split
  · exact hs
  · refine hs.quiet (fun id o h => ?_) (fun o => ?_) rfl fun h => by cases h
    · have h : (∅ : JsMap JsString ℕ).get? id = some o := h
      simp at h
    · exact Rests.definitionOf_change s s.installed.values (f := fun i => { i with active := false, pending := 0 })
        (fun _ => rfl) o

theorem rests (hs : s.Settling probes entries r k) (h : s.Rests t) (hf : Forward s t) : t.Settling probes entries r k :=
  hs.quiet h.named h.same h.reconciles fun hstopped => ⟨h.desired, hf.stopped hstopped⟩

/-- After the last turn a probe is installed only where it is wanted. -/
theorem install (hs : s.Settling probes entries r k) (hlt : entries.length < k) (hstopped : s.stopped = false)
    {probe current : ProbeDefinition} (hcurrent : s.desired.get? probe.id = some current)
    (hfingerprint : current.fingerprint = probe.fingerprint) (breakpointId : JsString) (hsound : s.Sound []) :
    (s.install probe breakpointId).Settling probes entries r k := by
  refine ⟨hs.job, hs.others, fun id o probe' hid ho => .inr ?_, fun _ _ => hs.desired hlt hstopped⟩
  have hnil : entries.drop k = [] := List.drop_eq_nil_of_le hlt.le
  rw [install_definitionOf] at ho
  have hid : (s.installed.set probe.id s.installations.length).get? id = some o := hid
  rw [JsMap.get?_set] at hid
  split at hid
  · rename_i heq
    cases hid
    rw [if_pos rfl] at ho
    cases ho
    rw [heq, gone, ← hs.desired hlt hstopped, hcurrent, Option.all_some, hfingerprint, decide_eq_false (not_not.mpr rfl)]
  · obtain ⟨i, hi, -, -⟩ := hsound.named id o hid
    rw [if_neg (List.getElem?_eq_some_iff.mp hi).1.ne] at ho
    have h := hs.kept id o probe' hid ho
    rw [hnil] at h
    exact h.resolve_left List.not_mem_nil

theorem acquired (hs : s.Settling probes entries r k) (a : ℕ) (hlt : entries.length < k) (hsound : s.Sound []) :
    (s.acquired a).Settling probes entries r k := by
  rcases s.acquired_cases a with h | ⟨probe, -, h | ⟨registry, h⟩ | ⟨⟨current, hcurrent, hfingerprint⟩, hstopped, -, b, h⟩⟩
  · rw [h]
    exact hs
  · rw [h]
    exact hs.finishArm a _
  · rw [h]
    exact hs.quiet (fun _ _ h => h) (fun _ => rfl) rfl fun h => ⟨rfl, h⟩
  · rw [h]
    exact (hs.install hlt hstopped hcurrent hfingerprint b hsound).finishArm a _

end Settling

theorem setReconciling_self {job : Reconciling} (h : s.reconciles[r]? = some job) (job' : Reconciling) :
    (s.setReconciling r job').reconciles[r]? = some job' := by
  show (s.reconciles.set r job')[r]? = _
  rw [List.getElem?_set_self (List.getElem?_eq_some_iff.mp h).1]

theorem setReconciling_of_ne {r' : ℕ} (h : r' ≠ r) (job : Reconciling) :
    (s.setReconciling r job).reconciles[r']? = s.reconciles[r']? := List.getElem?_set_ne (Ne.symm h)

theorem uninstall_get? {o : ℕ} {i : InstalledProbe} (hi : s.installations[o]? = some i) :
    (s.uninstall o).installed.get? i.definition.id = none := by
  unfold State.uninstall
  rw [hi]
  exact JsMap.get?_delete_self _ _

theorem wanted_eq (probes : List ProbeDefinition) (id : JsString) :
    (JsMap.ofEntries (probes.map fun probe => (probe.id, probe))).get? id = wanted probes id := by
  rw [JsMap.get?_ofEntries, ← List.map_reverse, List.find?_map, Option.map_map]
  exact Option.map_id'

namespace Settling

/-- The turn before the last: one of the entries is looked at. -/
theorem turn (hs : s.Settling probes entries r k) (hlt : k < entries.length) (hsound : s.Sound []) :
    (s.reconcileNext r).Settling probes entries r (k + 1) := by
  obtain ⟨⟨id, o⟩, hdrop⟩ : ∃ e, entries.drop k = e :: entries.drop (k + 1) :=
    ⟨_, List.drop_eq_getElem_cons hlt⟩
  have hjob := hs.job
  rw [hdrop, decide_eq_false (Nat.not_lt.mpr hlt.le)] at hjob
  have hnotdone : decide (entries.length < k + 1) = false := decide_eq_false (Nat.not_lt.mpr hlt)
  -- whichever way it is settled, what is left is an entry to come or a probe that is wanted
  have hset (t : State) (hreconciles : t.reconciles = (s.setReconciling r ⟨probes, entries.drop (k + 1), false⟩).reconciles)
      (hnamed : ∀ id o, t.installed.get? id = some o → s.installed.get? id = some o)
      (hsame : ∀ o, t.definitionOf o = s.definitionOf o)
      (hhead : ∀ probe, t.installed.get? id = some o → s.definitionOf o = some probe →
        gone probes id probe.fingerprint = false) : t.Settling probes entries r (k + 1) := by
    refine ⟨?_, fun r' job hr' h => ?_, fun id' o' probe hid ho => ?_, fun h => ?_⟩
    · rw [hreconciles, hnotdone]
      exact setReconciling_self hjob _
    · rw [hreconciles, setReconciling_of_ne hr'] at h
      exact hs.others r' job hr' h
    · have hkept := hs.kept id' o' probe (hnamed _ _ hid) (hsame o' ▸ ho)
      rw [hdrop, List.mem_cons] at hkept
      rcases hkept with (heq | hrest) | hwanted
      · cases heq
        exact .inr (hhead probe hid (hsame o ▸ ho))
      · exact .inl hrest
      · exact .inr hwanted
    · omega
  rcases s.reconcileNext_cases r with ⟨-, hfinished⟩ | ⟨probes', id', o', rest, hr, h⟩ | ⟨probes', hr, -⟩
  · cases hfinished _ hjob
  · rw [hjob] at hr
    cases hr
    rcases h with ⟨probe, ho, -, h⟩ | ⟨hwanted, h⟩
    · rw [h]
      have hrests := Rests.uninstall (s.setReconciling r ⟨probes, entries.drop (k + 1), false⟩) o
      refine hset _ hrests.reconciles hrests.named hrests.same fun probe hid _ => ?_
      obtain ⟨i, hi, -, rfl⟩ := hsound.named id o (hrests.named _ _ hid)
      have hnone := uninstall_get? (s := s.setReconciling r ⟨probes, entries.drop (k + 1), false⟩) hi
      rw [hnone] at hid
      cases hid
    · rw [h]
      exact hset _ rfl (fun _ _ h => h) (fun _ => rfl) fun probe _ ho => hwanted probe ho
  · rw [hjob] at hr
    cases hr

/-- The last turn. -/
theorem last (hs : s.Settling probes entries r entries.length) :
    (s.reconcileNext r).Settling probes entries r (entries.length + 1) := by
  have hjob := hs.job
  rw [List.drop_length, decide_eq_false (Nat.lt_irrefl _)] at hjob
  have hnil : entries.drop (entries.length + 1) = [] := List.drop_eq_nil_of_le (Nat.le_succ _)
  rcases s.reconcileNext_cases r with ⟨-, hfinished⟩ | ⟨probes', id, o, rest, hr, -⟩ | ⟨probes', hr, h⟩
  · cases hfinished _ hjob
  · rw [hjob] at hr
    cases hr
  · rw [hjob] at hr
    cases hr
    rw [h]
    refine ⟨?_, fun r' job hr' h => ?_, fun id o probe hid ho => ?_, fun _ _ id => wanted_eq probes id⟩
    · rw [hnil, decide_eq_true (Nat.lt_succ_self _)]
      exact setReconciling_self hjob _
    · have h : (s.setReconciling r ⟨probes, [], true⟩).reconciles[r']? = some job := h
      rw [setReconciling_of_ne hr'] at h
      exact hs.others r' job hr' h
    · have hkept := hs.kept id o probe hid ho
      rw [List.drop_length] at hkept
      exact .inr (hkept.resolve_left List.not_mem_nil)

/-- A call whose turns are over does nothing any more. -/
theorem ended (hs : s.Settling probes entries r k) (hlt : entries.length < k) :
    (s.reconcileNext r).Settling probes entries r (k + 1) := by
  have hjob := hs.job
  have hnil : entries.drop k = [] := List.drop_eq_nil_of_le hlt.le
  have hnil' : entries.drop (k + 1) = [] := List.drop_eq_nil_of_le (hlt.le.trans (Nat.le_succ k))
  rw [hnil, decide_eq_true hlt] at hjob
  rcases s.reconcileNext_cases r with ⟨h, -⟩ | ⟨probes', id, o, rest, hr, -⟩ | ⟨probes', hr, -⟩
  · rw [h]
    refine ⟨?_, hs.others, fun id o probe hid ho => ?_, fun _ => hs.desired hlt⟩
    · rw [hnil', decide_eq_true (hlt.trans (Nat.lt_succ_self k)), hjob]
    · have hkept := hs.kept id o probe hid ho
      rw [hnil] at hkept
      exact .inr (hkept.resolve_left List.not_mem_nil)
  · rw [hjob] at hr
    cases hr
  · rw [hjob] at hr
    cases hr

theorem reconcileNext (hs : s.Settling probes entries r k) (hsound : s.Sound []) :
    (s.reconcileNext r).Settling probes entries r (k + 1) := by
  rcases Nat.lt_trichotomy k entries.length with hlt | rfl | hlt
  · exact hs.turn hlt hsound
  · exact hs.last
  · exact hs.ended hlt

/-- The turns of the calls before are over. -/
theorem reconcileNext_of_ne (hs : s.Settling probes entries r k) {r' : ℕ} (hr' : r' ≠ r) :
    (s.reconcileNext r').Settling probes entries r k := by
  rcases s.reconcileNext_cases r' with ⟨h, -⟩ | ⟨probes', id, o, rest, hr, -⟩ | ⟨probes', hr, -⟩
  · rw [h]
    exact hs
  · cases hs.others r' _ hr' hr
  · cases hs.others r' _ hr' hr

theorem next (hs : s.Settling probes entries r k) (hsound : s.Sound []) {e : Event} (he : Undisturbed r s e) :
    (next lower config s e).Settling probes entries r (k + if e.turns r then 1 else 0) := by
  by_cases hrests : e.rests = true
  · have hturns : e.turns r = false := by
      cases e with
      | reconcileNext => cases hrests
      | _ => rfl
    rw [hturns]
    exact hs.rests (.next s hrests) (.next s e)
  · cases e with
    | ensureArmed probe resolution => exact hs.ensureArmed probe resolution
    | acquired a =>
      obtain ⟨job, hr, hfinished⟩ := he.2 a rfl
      rw [hs.job] at hr
      cases hr
      exact hs.acquired a (of_decide_eq_true hfinished) hsound
    | released a => exact hs.released a
    | reconcile probes' => exact absurd rfl (he.1 probes')
    | reconcileNext r' =>
      by_cases hr' : r' = r
      · subst hr'
        rw [Event.turns, decide_eq_true rfl]
        exact hs.reconcileNext hsound
      · rw [Event.turns, decide_eq_false hr']
        exact hs.reconcileNext_of_ne hr'
    | stop => exact hs.stop
    | paused | retireCounted | captured | answered | process | report | retired | registry | suspendAll | rearm =>
      exact absurd rfl hrests

theorem run {l : List Event} (h : Reachable lower config s) (hs : s.Settling probes entries r k)
    (hl : AllOk (NodeProbes.next lower config) (Undisturbed r) s l) :
    (run lower config s l).Settling probes entries r (k + l.countP (Event.turns r)) := by
  induction l generalizing s k with
  | nil => exact hs
  | cons e l ih =>
    have hstep : (NodeProbes.run lower config s (e :: l)).Settling probes entries r
        (k + (if e.turns r then 1 else 0) + l.countP (Event.turns r)) :=
      ih (h.step e trivial) (hs.next h.sound hl.1) hl.2
    rw [List.countP_cons, Nat.add_comm (l.countP _), ← Nat.add_assoc]
    exact hstep

/-- The call begins; those before are over. -/
theorem start (hstopped : s.stopped = false) (hcalm : ∀ job ∈ s.reconciles, job.finished = true)
    (probes : List ProbeDefinition) :
    (s.reconcile probes).Settling probes s.installed.entries s.reconciles.length 0 := by
  unfold State.reconcile
  rw [hstopped]
  refine ⟨?_, fun r' job hr' h => ?_, fun id o probe hid _ => .inl ?_, fun h => by cases h⟩
  · exact List.getElem?_concat_length
  · have h : (s.reconciles ++ [⟨probes, s.installed.entries, false⟩])[r']? = some job := h
    have hlt : r' < s.reconciles.length := by
      have := (List.getElem?_eq_some_iff.mp h).1
      rw [List.length_append, List.length_singleton] at this
      omega
    rw [List.getElem?_append_left hlt] at h
    exact hcalm job (List.mem_of_getElem? h)
  · exact JsMap.get?_eq_some_iff.mp hid

end Settling

end State

/-- **A reconcile settles what is installed.**  From any state in which no call is
under way, once a call for `probes` has had its turns, and no probe was installed
before the last of them, every installed probe is active and is the one that is
wanted under its identifier. -/
theorem reconcile_settles {lower : JsString → JsString} {config : PauseCapture.ManagerConfig} {s : State}
    (h : Reachable lower config s) (hstopped : s.stopped = false) (hcalm : ∀ job ∈ s.reconciles, job.finished = true)
    {probes : List ProbeDefinition} {l : List Event}
    (hl : AllOk (next lower config) (Undisturbed s.reconciles.length) (s.reconcile probes) l)
    (hturns : s.installed.size < l.countP (Event.turns s.reconciles.length)) {id : JsString} {o : ℕ}
    (hid : (run lower config s (.reconcile probes :: l)).installed.get? id = some o) :
    ∃ i probe, (run lower config s (.reconcile probes :: l)).installations[o]? = some i ∧ i.active = true ∧
      i.definition.id = id ∧ State.wanted probes id = some probe ∧ probe.fingerprint = i.definition.fingerprint := by
  have hsettled : (run lower config s (.reconcile probes :: l)).Settling probes s.installed.entries s.reconciles.length
      (0 + l.countP (Event.turns s.reconciles.length)) := by
    have hbegun : Reachable lower config (next lower config s (.reconcile probes)) := Reached.step _ h trivial
    exact (State.Settling.start hstopped hcalm probes).run hbegun hl
  obtain ⟨i, hi, hactive, rfl⟩ := (h.run (.reconcile probes :: l)).sound.named id o hid
  have hkept := hsettled.kept i.definition.id o i.definition hid (by rw [State.definitionOf, hi]; rfl)
  rw [Nat.zero_add, List.drop_eq_nil_of_le hturns.le] at hkept
  have hgone := hkept.resolve_left List.not_mem_nil
  rw [State.gone] at hgone
  rcases hwanted : State.wanted probes i.definition.id with - | probe
  · rw [hwanted] at hgone
    cases hgone
  · rw [hwanted, Option.all_some, decide_eq_false_iff_not, not_not] at hgone
    exact ⟨i, probe, hi, hactive, rfl, rfl, hgone⟩

/-- The counter has moved to another line. -/
def movedProbe : ProbeDefinition := { sampleProbe with line := 20, fingerprint := js "v2" }

/-- The old counter is removed, and the new one armed. -/
def moving : List Event :=
  [.reconcileNext 1, .reconcileNext 1, .ensureArmed movedProbe (.found ⟨js "7", js "file:///srv/app.js"⟩),
    .registry (.answer 1 (.response (js "c") [some ⟨some (js "7"), some 19, some 0⟩])), .registry (.install 1),
    .registry (.resume 1), .acquired 1]

theorem moving_settles :
    ∃ i probe, (run id PauseCapture.defaultManagerConfig (run id PauseCapture.defaultManagerConfig {} arming)
        (.reconcile [movedProbe] :: moving)).installations[1]? = some i ∧ i.active = true ∧ i.definition.id = js "p" ∧
      State.wanted [movedProbe] (js "p") = some probe ∧ probe.fingerprint = i.definition.fingerprint := by
  have h : Reachable id PauseCapture.defaultManagerConfig (run id PauseCapture.defaultManagerConfig {} arming) :=
    Reachable.run .init arming
  have hquiet {s : State} {e : Event} (hr : ∀ probes, e ≠ .reconcile probes) (ha : ∀ a, e ≠ .acquired a) :
      Undisturbed 1 s e := ⟨hr, fun a h => absurd h (ha a)⟩
  refine reconcile_settles h rfl (by decide) (l := moving) ⟨?_, ?_, ?_, ?_, ?_, ?_, ?_, trivial⟩ (by decide) (by decide)
  · exact hquiet (fun _ h => by cases h) fun _ h => by cases h
  · exact hquiet (fun _ h => by cases h) fun _ h => by cases h
  · exact hquiet (fun _ h => by cases h) fun _ h => by cases h
  · exact hquiet (fun _ h => by cases h) fun _ h => by cases h
  · exact hquiet (fun _ h => by cases h) fun _ h => by cases h
  · exact hquiet (fun _ h => by cases h) fun _ h => by cases h
  · exact ⟨(fun _ h => by cases h), fun _ _ => ⟨_, rfl, rfl⟩⟩

-- the condition on `l` is needed: a counter armed before the last turn stays although nobody wants it
example :
    (run id PauseCapture.defaultManagerConfig (run id PauseCapture.defaultManagerConfig {} (arming.take 6))
      [.reconcile [], .acquired 0, .reconcileNext 1]).installed.get? (js "p") = some 0 := by decide

end NodeProbes
