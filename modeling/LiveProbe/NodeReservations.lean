/-
LiveProbe/NodeReservations.lean

The reservations of the Node agent: `hits` and `pending` of `probe-manager.ts`.

While an installation is active, `pending` is the number of the pauses that hold
it and have not come to their end (`Good.room`), however captures, resumes and
the removal of probes interleave.  An installation that is given up has its
`pending` cleared under the pauses that still hold it; it is never active again,
so what they release no longer matters.  From the count follow both that no
installation takes more hits than its limit and that no reservation is lost.
-/
import LiveProbe.NodeProbes
import LiveProbe.OrderedSets
import LiveProbe.Transition
import Mathlib.Data.List.Nodup

open JsString

namespace NodeProbes

/-! ### Counting -/

/-- The pause has not released its candidates. -/
def Stage.live : Stage → Bool
  | .settled => false
  | _ => true

/-- The pause waits for a resume after which nothing is processed. -/
def Stage.resumesOnly : Stage → Bool
  | .resuming .nothing | .retrying _ .nothing => true
  | _ => false

/-- The candidates are distinct, and there are none when nothing will be processed. -/
structure Pause.Fit (pause : Pause) : Prop where
  nodup : pause.candidates.Nodup
  bare : pause.stage.resumesOnly = true → pause.candidates = []

/-- The pause holds a reservation of the installation. -/
def Pause.holds (o : ℕ) (pause : Pause) : Bool := pause.stage.live && decide (o ∈ pause.candidates)

/-- A hit of the installation. -/
def Seen.hits (o : ℕ) : Seen → Bool
  | .hit installation _ | .counted installation _ => installation = o
  | _ => false

theorem countP_modify {α : Type*} {l : List α} {q : α → Bool} {f : α → α} (hf : ∀ a, q (f a) = q a) (n : ℕ) :
    (l.modify n f).countP q = l.countP q := by
  induction l generalizing n with
  | nil => simp
  | cons a l ih =>
    cases n with
    | zero => simp [List.countP_cons, hf]
    | succ n => simp [List.countP_cons, ih]

namespace State

/-- The pauses that hold a reservation of the installation. -/
def holding (s : State) (o : ℕ) : ℕ := s.pauses.countP (Pause.holds o)

/-- The hits of the installation that were seen. -/
def emitted (s : State) (o : ℕ) : ℕ := s.seen.countP (Seen.hits o)

variable {s t : State} {o p : ℕ} {i : InstalledProbe} {pause : Pause} {x : List ℕ}
  {k : OnResumed}

@[simp] theorem change_installations (s : State) (which : List ℕ) (f : InstalledProbe → InstalledProbe) (o : ℕ) :
    (s.change which f).installations[o]? = (s.installations[o]?).map fun i => if o ∈ which then f i else i :=
  List.getElem?_mapIdx

@[simp] theorem change_length (s : State) (which : List ℕ) (f : InstalledProbe → InstalledProbe) :
    (s.change which f).installations.length = s.installations.length :=
  List.length_mapIdx

theorem change_nil (s : State) (f : InstalledProbe → InstalledProbe) : s.change [] f = s := by
  have h : (s.change [] f).installations = s.installations := by
    refine List.ext_getElem? fun o => ?_
    rw [change_installations]
    rcases s.installations[o]? with - | i <;> simp
  exact congrArg (fun l => { s with installations := l }) h

theorem emitted_append {l : List Seen} (h : t.seen = s.seen ++ l) (hl : ∀ x ∈ l, x.hits o = false) :
    t.emitted o = s.emitted o := by
  have hzero : l.countP (Seen.hits o) = 0 := List.countP_eq_zero.mpr fun x hx => by simp [hl x hx]
  rw [emitted, emitted, h, List.countP_append, hzero, Nat.add_zero]

/-- A pause that moves on holds what it held, unless it settles. -/
theorem holding_setStage (hp : s.pauses[p]? = some pause) (stage : Stage) (o : ℕ) :
    (s.setStage p stage).holding o + (if pause.holds o then 1 else 0) =
      s.holding o + if ({ pause with stage := stage } : Pause).holds o then 1 else 0 := by
  obtain ⟨hlt, hget⟩ := List.getElem?_eq_some_iff.mp hp
  have hset : (s.setStage p stage).pauses = s.pauses.set p { pause with stage := stage } := by
    refine List.ext_getElem? fun q => ?_
    show (s.pauses.modify p _)[q]? = _
    rw [List.getElem?_modify, List.getElem?_set]
    by_cases h : p = q
    · subst h
      simp [hget, hlt]
    · simp [h]
  rw [holding, holding, hset, List.countP_set hlt, hget]
  have hpos : pause.holds o = true → 0 < s.pauses.countP (Pause.holds o) := fun h =>
    List.countP_pos_iff.mpr ⟨pause, List.mem_of_getElem? hp, h⟩
  by_cases h : pause.holds o = true
  · have := hpos h
    rw [if_pos h]
    omega
  · rw [if_neg h]
    omega

theorem holding_pause (s : State) (candidates counted : List ℕ) (o : ℕ) :
    (s.pause candidates counted).holding o = s.holding o + if o ∈ candidates then 1 else 0 := by
  rw [holding, holding]
  show (s.pauses ++ [_]).countP _ = _
  rw [List.countP_append]
  by_cases h : o ∈ candidates <;> simp [Pause.holds, Stage.live, h]

theorem pause_last (s : State) (candidates counted : List ℕ) :
    (s.pause candidates counted).pauses[s.pauses.length]? = some ⟨candidates, s.epoch, .capturing, counted⟩ :=
  List.getElem?_concat_length

/-! ### The invariant -/

/-- The books of an installation are in order. -/
structure Good (s : State) (o : ℕ) (i : InstalledProbe) : Prop where
  emitted : s.emitted o = i.hits
  limit : i.hits ≤ i.definition.hitLimit
  room : i.active = true → i.pending = s.holding o ∧ i.hits + i.pending ≤ i.definition.hitLimit

/-- The books are in order; `x` are installations whose hit limit is still to be looked at. -/
structure Sound (s : State) (x : List ℕ) : Prop where
  good : ∀ o i, s.installations[o]? = some i → s.Good o i
  /-- an index that is not in use -/
  fresh : ∀ o, s.installations.length ≤ o → s.holding o = 0 ∧ s.emitted o = 0
  named : ∀ id o, s.installed.get? id = some o →
    ∃ i, s.installations[o]? = some i ∧ i.active = true ∧ i.definition.id = id
  fit : ∀ pause ∈ s.pauses, pause.Fit
  /-- an installation that is named at its hit limit is about to be retired -/
  full : ∀ id o i, s.installed.get? id = some o → s.installations[o]? = some i → 0 < i.hits →
    i.definition.hitLimit ≤ i.hits → o ∈ x ∨ ∃ pause ∈ s.pauses, o ∈ pause.counted

theorem Sound.init : Sound {} [] where
  good o i h := by simp at h
  fresh o _ := ⟨rfl, rfl⟩
  named id o h := by simp at h
  fit pause h := by simp at h
  full id o i h := by simp at h

theorem Good.congr (h : s.Good o i) (hemitted : t.emitted o = s.emitted o) (hholding : t.holding o = s.holding o) :
    t.Good o i :=
  ⟨hemitted ▸ h.emitted, h.limit, hholding ▸ h.room⟩

/-- The index of an installation that is named is in use. -/
theorem Sound.lt_length (hs : s.Sound x) {id : JsString} (h : s.installed.get? id = some o) :
    o < s.installations.length := by
  obtain ⟨i, hi, -⟩ := hs.named id o h
  exact (List.getElem?_eq_some_iff.mp hi).1

/-- An installation goes under one name. -/
theorem Sound.name_eq (hs : s.Sound x) {id : JsString} (h : s.installed.get? id = some o)
    (hi : s.installations[o]? = some i) : i.active = true ∧ i.definition.id = id := by
  obtain ⟨i', hi', hactive, hid⟩ := hs.named id o h
  rw [hi] at hi'
  cases hi'
  exact ⟨hactive, hid⟩

/-- A change of one pause that leaves it fit. -/
theorem Sound.fit_modify (hs : s.Sound x) {f : Pause → Pause} (hp : s.pauses[p]? = some pause) (hf : (f pause).Fit) :
    ∀ pause ∈ s.pauses.modify p f, pause.Fit := by
  intro pause' h
  obtain ⟨q, hq⟩ := List.getElem?_of_mem h
  rw [List.getElem?_modify] at hq
  obtain ⟨old, hold, rfl⟩ := Option.map_eq_some_iff.mp hq
  by_cases h : p = q
  · subst h
    rw [hp] at hold
    cases hold
    rw [if_pos rfl]
    exact hf
  · rw [if_neg h]
    exact hs.fit old (List.mem_of_getElem? hold)

/-- Pauses that keep what they count keep an installation waiting. -/
theorem counted_modify {f : Pause → Pause} (hf : ∀ pause, (f pause).counted = pause.counted)
    (h : ∃ pause ∈ s.pauses, o ∈ pause.counted) : ∃ pause ∈ s.pauses.modify p f, o ∈ pause.counted := by
  obtain ⟨pause, hmem, ho⟩ := h
  obtain ⟨q, hq⟩ := List.getElem?_of_mem hmem
  have hget : (s.pauses.modify p f)[q]? = some (if p = q then f pause else pause) := by
    rw [List.getElem?_modify, hq]
    rfl
  refine ⟨_, List.mem_of_getElem? hget, ?_⟩
  split
  · rw [hf]
    exact ho
  · exact ho

/-- Installations are given up: they go inactive, and no name is left of them. -/
theorem Sound.close (hs : s.Sound x) (gone : List ℕ) (hinst : t.installations = (s.deactivate gone).installations)
    (hpauses : t.pauses = s.pauses) (hemitted : ∀ o, t.emitted o = s.emitted o)
    (hinstalled : ∀ id o, t.installed.get? id = some o → s.installed.get? id = some o ∧ o ∉ gone) : t.Sound x := by
  have hholding (o : ℕ) : t.holding o = s.holding o := by rw [holding, holding, hpauses]
  have hget (o : ℕ) : t.installations[o]? = (s.installations[o]?).map fun i =>
      if o ∈ gone then { i with active := false, pending := 0 } else i := by
    rw [hinst, deactivate, change_installations]
  refine ⟨fun o i h => ?_, fun o h => ?_, fun id o h => ?_, hpauses ▸ hs.fit, fun id o i h hi hpos hfull => ?_⟩
  · rw [hget] at h
    obtain ⟨i', hi', rfl⟩ := Option.map_eq_some_iff.mp h
    have hgood := (hs.good o i' hi').congr (hemitted o) (hholding o)
    split
    · exact ⟨hgood.emitted, hgood.limit, fun h => by cases h⟩
    · exact hgood
  · rw [hemitted, hholding]
    refine hs.fresh o ?_
    rw [hinst, deactivate, change_length] at h
    exact h
  · obtain ⟨h, hgone⟩ := hinstalled id o h
    obtain ⟨i, hi, hactive, hid⟩ := hs.named id o h
    refine ⟨i, ?_, hactive, hid⟩
    rw [hget, hi, Option.map_some, if_neg hgone]
  · obtain ⟨h, hgone⟩ := hinstalled id o h
    rw [hget] at hi
    obtain ⟨i', hi', rfl⟩ := Option.map_eq_some_iff.mp hi
    rw [if_neg hgone] at hpos hfull
    rw [hpauses]
    exact hs.full id o i' h hi' hpos hfull

/-- A step that leaves the installations and the pauses alone. -/
theorem Sound.quiet (hs : s.Sound x) (hinst : t.installations = s.installations) (hinstalled : t.installed = s.installed)
    (hpauses : t.pauses = s.pauses) (hemitted : ∀ o, t.emitted o = s.emitted o) : t.Sound x := by
  refine hs.close [] ?_ hpauses hemitted fun id o h => ⟨hinstalled ▸ h, List.not_mem_nil⟩
  rw [deactivate, change_nil, hinst]

theorem Sound.see (hs : s.Sound x) {l : List Seen} (hl : ∀ x ∈ l, ∀ o, x.hits o = false) : (s.see l).Sound x :=
  hs.quiet rfl rfl rfl fun o => emitted_append rfl fun x hx => hl x hx o

theorem Sound.error (hs : s.Sound x) (probe : ProbeDefinition) (detail : JsString) : (s.error probe detail).Sound x :=
  hs.quiet rfl rfl rfl fun _ => rfl

/-- A pause moves on without settling. -/
theorem Sound.setStage (hs : s.Sound x) (hp : s.pauses[p]? = some pause) {stage : Stage}
    (hlive : stage.live = pause.stage.live) (hbare : stage.resumesOnly = true → pause.candidates = []) :
    (s.setStage p stage).Sound x := by
  have hmem := List.mem_of_getElem? hp
  have hholding (o : ℕ) : (s.setStage p stage).holding o = s.holding o := by
    have hsame : ({ pause with stage := stage } : Pause).holds o = pause.holds o := by
      rw [Pause.holds, Pause.holds, hlive]
    have := holding_setStage hp stage o
    rw [hsame] at this
    omega
  refine ⟨fun o i h => (hs.good o i h).congr rfl (hholding o), fun o h => ?_, hs.named, hs.fit_modify hp ⟨(hs.fit pause hmem).nodup, hbare⟩,
    fun id o i h hi hpos hfull => (hs.full id o i h hi hpos hfull).imp_right (counted_modify fun _ => rfl)⟩
  rw [hholding]
  exact hs.fresh o h

/-! ### Reserving -/

theorem candidatesOf_eq (hp : s.pauses[p]? = some pause) : s.candidatesOf p = pause.candidates := by
  rw [candidatesOf, hp]
  rfl

/-- What a pause that settles leaves of an installation. -/
theorem settle_installations (candidates : List ℕ) (o : ℕ) :
    ((s.releasePending candidates).setStage p .settled).installations[o]? =
      (s.installations[o]?).map fun i => if o ∈ candidates then { i with pending := i.pending - 1 } else i :=
  change_installations s candidates (fun i => { i with pending := i.pending - 1 }) o

/-- A pause settles: its reservations are released, and a candidate that is still
active has room for one more hit. -/
theorem Sound.settle (hs : s.Sound x) (hp : s.pauses[p]? = some pause) (hlive : pause.stage.live = true) :
    ((s.releasePending pause.candidates).setStage p .settled).Sound x ∧
      ∀ o ∈ pause.candidates, ∀ i,
        ((s.releasePending pause.candidates).setStage p .settled).installations[o]? = some i → i.active = true →
          i.hits + i.pending < i.definition.hitLimit := by
  have hholding (o : ℕ) : ((s.releasePending pause.candidates).setStage p .settled).holding o +
      (if o ∈ pause.candidates then 1 else 0) = s.holding o := by
    have hp' : (s.releasePending pause.candidates).pauses[p]? = some pause := hp
    have h := holding_setStage hp' .settled o
    have hbefore : pause.holds o = decide (o ∈ pause.candidates) := by rw [Pause.holds, hlive, Bool.true_and]
    have hafter : ({ pause with stage := .settled } : Pause).holds o = false := rfl
    have hsame : (s.releasePending pause.candidates).holding o = s.holding o := rfl
    simp only [hbefore, hafter, hsame, decide_eq_true_eq, Bool.false_eq_true, if_false, Nat.add_zero] at h
    exact h
  have hgood : ∀ o i, ((s.releasePending pause.candidates).setStage p .settled).installations[o]? = some i →
      ((s.releasePending pause.candidates).setStage p .settled).Good o i ∧
        (o ∈ pause.candidates → i.active = true → i.hits + i.pending < i.definition.hitLimit) := by
    intro o i h
    rw [settle_installations] at h
    obtain ⟨i', hi', rfl⟩ := Option.map_eq_some_iff.mp h
    have hold := hs.good o i' hi'
    have hhold := hholding o
    have hemitted : ((s.releasePending pause.candidates).setStage p .settled).emitted o = s.emitted o := rfl
    by_cases ho : o ∈ pause.candidates
    · -- the pause itself is one of those that are counted, so there is something to release
      simp only [if_pos ho] at hhold ⊢
      refine ⟨⟨hemitted ▸ hold.emitted, hold.limit, fun hactive => ?_⟩, fun _ hactive => ?_⟩
      · obtain ⟨hpending, hroom⟩ := hold.room hactive
        show i'.pending - 1 = _ ∧ i'.hits + (i'.pending - 1) ≤ i'.definition.hitLimit
        omega
      · obtain ⟨hpending, hroom⟩ := hold.room hactive
        show i'.hits + (i'.pending - 1) < i'.definition.hitLimit
        omega
    · simp only [if_neg ho, Nat.add_zero] at hhold ⊢
      exact ⟨hold.congr hemitted hhold, fun h => absurd h ho⟩
  refine ⟨⟨fun o i h => (hgood o i h).1, fun o h => ?_, fun id o h => ?_,
    hs.fit_modify hp ⟨(hs.fit pause (List.mem_of_getElem? hp)).nodup, fun h => by cases h⟩,
    fun id o i h hi hpos hfull => ?_⟩, fun o ho i h => (hgood o i h).2 ho⟩
  · have hlen : s.installations.length ≤ o := by
      rw [← change_length s pause.candidates fun i => { i with pending := i.pending - 1 }]
      exact h
    obtain ⟨hzero, hemitted⟩ := hs.fresh o hlen
    have := hholding o
    exact ⟨by omega, hemitted⟩
  · obtain ⟨i, hi, hactive, hid⟩ := hs.named id o h
    refine ⟨if o ∈ pause.candidates then { i with pending := i.pending - 1 } else i, ?_, ?_, ?_⟩
    · rw [settle_installations, hi]
      rfl
    · split <;> exact hactive
    · split <;> exact hid
  · rw [settle_installations] at hi
    obtain ⟨i', hi', rfl⟩ := Option.map_eq_some_iff.mp hi
    refine (hs.full id o i' h hi' ?_ ?_).imp_right (counted_modify fun _ => rfl)
    · split at hpos <;> exact hpos
    · split at hfull <;> exact hfull

/-! ### Taking a hit -/

theorem takesHit_iff : s.takesHit o = true ↔ ∃ i, s.installations[o]? = some i ∧ i.active = true ∧
    s.suspended = false ∧ s.inspectorFailed = false ∧ i.hits + i.pending < i.definition.hitLimit := by
  rw [takesHit]
  rcases s.installations[o]? with - | i
  · simp
  · simp [and_assoc]

/-- A candidate goes under a name and has room. -/
theorem mem_candidates {hitBreakpoints : List JsString} (h : o ∈ s.candidates hitBreakpoints) :
    (∃ id, s.installed.get? id = some o) ∧ s.takesHit o = true := by
  obtain ⟨h, htakes⟩ := List.mem_filter.mp h
  obtain ⟨id, -, hid⟩ := List.mem_filterMap.mp h
  exact ⟨⟨id, hid⟩, htakes⟩

theorem Sound.candidates_nodup (hs : s.Sound x) (hitBreakpoints : List JsString) :
    (s.candidates hitBreakpoints).Nodup := by
  refine List.Nodup.filter _ (List.Nodup.filterMap (fun id id' o h h' => ?_) (OrderedSet.nodup_eraseDups _))
  obtain ⟨i, hi, -, hid⟩ := hs.named id o h
  rw [← hid, (hs.name_eq h' hi).2]

/-- A pause begins that holds what was reserved for it. -/
theorem Sound.reserve (hs : s.Sound x) {candidates : List ℕ} (hnodup : candidates.Nodup)
    (htakes : ∀ o ∈ candidates, s.takesHit o = true) :
    ((s.change candidates fun i => { i with pending := i.pending + 1 }).pause candidates []).Sound x := by
  have hget (o : ℕ) : ((s.change candidates fun i => { i with pending := i.pending + 1 }).pause candidates
      []).installations[o]? = (s.installations[o]?).map fun i =>
        if o ∈ candidates then { i with pending := i.pending + 1 } else i := change_installations s candidates _ o
  have hholding (o : ℕ) := holding_pause (s.change candidates fun i => { i with pending := i.pending + 1 }) candidates [] o
  have hemitted (o : ℕ) : ((s.change candidates fun i => { i with pending := i.pending + 1 }).pause candidates
      []).emitted o = s.emitted o := rfl
  have hsame (o : ℕ) : (s.change candidates fun i => { i with pending := i.pending + 1 }).holding o = s.holding o := rfl
  refine ⟨fun o i h => ?_, fun o h => ?_, fun id o h => ?_, fun pause h => ?_, fun id o i h hi hpos hfull => ?_⟩
  · rw [hget] at h
    obtain ⟨i', hi', rfl⟩ := Option.map_eq_some_iff.mp h
    have hold := hs.good o i' hi'
    have hhold := hholding o
    rw [hsame] at hhold
    by_cases ho : o ∈ candidates
    · obtain ⟨i'', hi'', -, -, -, hroom⟩ := takesHit_iff.mp (htakes o ho)
      rw [hi'] at hi''
      cases hi''
      rw [if_pos ho] at hhold ⊢
      refine ⟨hemitted o ▸ hold.emitted, hold.limit, fun hactive => ?_⟩
      obtain ⟨hpending, -⟩ := hold.room hactive
      show i'.pending + 1 = _ ∧ i'.hits + (i'.pending + 1) ≤ i'.definition.hitLimit
      omega
    · rw [if_neg ho] at hhold ⊢
      exact hold.congr (hemitted o) hhold
  · have hlen : s.installations.length ≤ o := by
      rw [← change_length s candidates fun i => { i with pending := i.pending + 1 }]
      exact h
    obtain ⟨hzero, hemit⟩ := hs.fresh o hlen
    have hout : o ∉ candidates := by
      intro ho
      obtain ⟨i, hi, -⟩ := takesHit_iff.mp (htakes o ho)
      exact absurd (List.getElem?_eq_some_iff.mp hi).1 (not_lt.mpr hlen)
    have hhold := hholding o
    rw [hsame, if_neg hout] at hhold
    exact ⟨hhold.trans hzero, hemit⟩
  · obtain ⟨i, hi, hactive, hid⟩ := hs.named id o h
    refine ⟨if o ∈ candidates then { i with pending := i.pending + 1 } else i, ?_, ?_, ?_⟩
    · rw [hget, hi]
      rfl
    · split <;> exact hactive
    · split <;> exact hid
  · rcases List.mem_append.mp h with h | h
    · exact hs.fit pause h
    · obtain rfl := List.mem_singleton.mp h
      exact ⟨hnodup, fun h => by cases h⟩
  · rw [hget] at hi
    obtain ⟨i', hi', rfl⟩ := Option.map_eq_some_iff.mp hi
    refine (hs.full id o i' h hi' ?_ ?_).imp_right fun ⟨pause, hmem, ho⟩ => ⟨pause, List.mem_append_left _ hmem, ho⟩
    · split at hpos <;> exact hpos
    · split at hfull <;> exact hfull

/-- Hits that are counted without a reservation, where there is room for them. -/
theorem Sound.count (hs : s.Sound x) (counted : List ℕ) (htakes : ∀ o ∈ counted, ∀ i, s.installations[o]? = some i →
      i.hits + i.pending < i.definition.hitLimit)
    (hinst : t.installations = (s.change counted fun i => { i with hits := i.hits + 1 }).installations)
    (hinstalled : t.installed = s.installed) (hpauses : t.pauses = s.pauses)
    (hlt : ∀ o ∈ counted, o < s.installations.length)
    (hemitted : ∀ o, t.emitted o = s.emitted o + if o ∈ counted then 1 else 0) : t.Sound (counted ++ x) := by
  have hget (o : ℕ) : t.installations[o]? = (s.installations[o]?).map fun i =>
      if o ∈ counted then { i with hits := i.hits + 1 } else i := by
    rw [hinst, change_installations]
  have hholding (o : ℕ) : t.holding o = s.holding o := by rw [holding, holding, hpauses]
  refine ⟨fun o i h => ?_, fun o h => ?_, fun id o h => ?_, hpauses ▸ hs.fit, fun id o i h hi hpos hfull => ?_⟩
  · rw [hget] at h
    obtain ⟨i', hi', rfl⟩ := Option.map_eq_some_iff.mp h
    have hold := hs.good o i' hi'
    have hemit := hemitted o
    by_cases ho : o ∈ counted
    · have hroom := htakes o ho i' hi'
      have hlast := hold.emitted
      rw [if_pos ho] at hemit ⊢
      refine ⟨?_, ?_, fun hactive => ?_⟩
      · show t.emitted o = i'.hits + 1
        omega
      · show i'.hits + 1 ≤ i'.definition.hitLimit
        omega
      · obtain ⟨hpending, -⟩ := hold.room hactive
        rw [hholding]
        refine ⟨hpending, ?_⟩
        show i'.hits + 1 + i'.pending ≤ i'.definition.hitLimit
        omega
    · rw [if_neg ho] at hemit ⊢
      exact hold.congr hemit (hholding o)
  · have hlen : s.installations.length ≤ o := by
      rw [hinst, change_length] at h
      exact h
    have hout : o ∉ counted := fun ho => absurd (hlt o ho) (not_lt.mpr hlen)
    rw [hholding, hemitted, if_neg hout]
    exact hs.fresh o hlen
  · rw [hinstalled] at h
    obtain ⟨i, hi, hactive, hid⟩ := hs.named id o h
    refine ⟨if o ∈ counted then { i with hits := i.hits + 1 } else i, ?_, ?_, ?_⟩
    · rw [hget, hi]
      rfl
    · split <;> exact hactive
    · split <;> exact hid
  · rw [hget] at hi
    obtain ⟨i', hi', rfl⟩ := Option.map_eq_some_iff.mp hi
    by_cases ho : o ∈ counted
    · exact .inl (List.mem_append_left _ ho)
    · rw [if_neg ho] at hpos hfull
      rw [hpauses]
      rw [hinstalled] at h
      exact (hs.full id o i' h hi' hpos hfull).imp_left fun h => List.mem_append_right _ h

/-- The pause of what was counted over the budget sees to the limits. -/
theorem Sound.pauseCounted (counted : List ℕ) (hs : s.Sound (counted ++ x)) : (s.pause [] counted).Sound x := by
  have hholding (o : ℕ) : (s.pause [] counted).holding o = s.holding o := holding_pause s [] counted o
  refine ⟨fun o i h => (hs.good o i h).congr rfl (hholding o), fun o h => ?_, hs.named, fun pause h => ?_,
    fun id o i h hi hpos hfull => ?_⟩
  · rw [hholding]
    exact hs.fresh o h
  · rcases List.mem_append.mp h with h | h
    · exact hs.fit pause h
    · obtain rfl := List.mem_singleton.mp h
      exact ⟨List.nodup_nil, fun _ => rfl⟩
  · rcases hs.full id o i h hi hpos hfull with h | ⟨pause, hmem, ho⟩
    · rcases List.mem_append.mp h with h | h
      · exact .inr ⟨⟨[], s.epoch, .capturing, counted⟩, List.mem_append_right _ (List.mem_singleton_self _), h⟩
      · exact .inl h
    · exact .inr ⟨pause, List.mem_append_left _ hmem, ho⟩

/-! ### Giving up -/

/-- What is left of the names once that of an installation is deleted. -/
theorem Sound.delete (hs : s.Sound x) (hi : s.installations[o]? = some i) {id : JsString} {o' : ℕ}
    (h : (s.installed.delete i.definition.id).get? id = some o') : s.installed.get? id = some o' ∧ o' ∉ [o] := by
  rw [JsMap.get?_delete] at h
  split at h
  · cases h
  · rename_i hne
    refine ⟨h, fun ho => hne ?_⟩
    obtain rfl := List.mem_singleton.mp ho
    exact (hs.name_eq h hi).2.symm

theorem Sound.retireAtHitLimit (hs : s.Sound x) (o : ℕ) : (s.retireAtHitLimit o).Sound x := by
  unfold State.retireAtHitLimit
  split
  · exact hs
  · rename_i i hi
    split
    · exact hs
    · refine hs.close [o] rfl rfl (fun o' => emitted_append rfl ?_) fun id o' h => hs.delete hi h
      rintro seen hseen
      obtain rfl := List.mem_singleton.mp hseen
      rfl

theorem Sound.uninstall (hs : s.Sound x) (o : ℕ) : (s.uninstall o).Sound x := by
  unfold State.uninstall
  split
  · exact hs
  · rename_i i hi
    exact hs.close [o] rfl rfl (fun _ => rfl) fun id o' h => hs.delete hi h

/-- Nothing stays installed. -/
theorem Sound.clear (hs : s.Sound x) (hinst : t.installations = s.clear.installations) (hpauses : t.pauses = s.pauses)
    (hemitted : ∀ o, t.emitted o = s.emitted o) (hinstalled : t.installed = ∅) : t.Sound x := by
  refine hs.close _ hinst hpauses hemitted fun id o h => ?_
  rw [hinstalled] at h
  simp at h

theorem Sound.suspendAll (hs : s.Sound x) (detail : JsString) : (s.suspendAll detail).Sound x := by
  unfold State.suspendAll
  split
  · exact hs
  · refine hs.clear rfl rfl (fun o => emitted_append rfl fun seen hseen => ?_) rfl
    obtain ⟨probe, -, rfl⟩ := List.mem_map.mp hseen
    rfl

theorem Sound.rearm (hs : s.Sound x) : s.rearm.Sound x := by
  unfold State.rearm
  split
  · exact hs
  · exact hs.quiet rfl rfl rfl fun _ => rfl

theorem Sound.stop (hs : s.Sound x) : s.stop.Sound x := by
  unfold State.stop
  split
  · exact hs
  · exact hs.clear rfl rfl (fun _ => rfl) rfl

/-! ### Resuming -/

/-- A pause that settles has released what it held. -/
theorem Sound.settled (hs : s.Sound x) (hp : s.pauses[p]? = some pause) (hlive : pause.stage.live = true) :
    ((s.releasePending (s.candidatesOf p)).setStage p .settled).Sound x := by
  rw [candidatesOf_eq hp]
  exact (hs.settle hp hlive).1

theorem Sound.resumeWithFallback (hs : s.Sound x) (hp : s.pauses[p]? = some pause) (hlive : pause.stage.live = true)
    (hbare : k = .nothing → pause.candidates = []) : (s.resumeWithFallback p k).Sound x := by
  unfold State.resumeWithFallback
  split
  · exact hs.settled hp hlive
  · have hsee : (s.see [.resume p]).Sound x := hs.see fun seen hseen o => by
      obtain rfl := List.mem_singleton.mp hseen
      rfl
    refine hsee.setStage (show (s.see [.resume p]).pauses[p]? = some pause from hp) hlive.symm fun h => hbare ?_
    rcases k with - | ⟨captureError, capture⟩
    · rfl
    · cases h

/-- The pause goes on after its resume, or has nothing to release. -/
theorem Sound.resumed (hs : s.Sound x) (hp : s.pauses[p]? = some pause) (hlive : pause.stage.live = true)
    (hbare : k = .nothing → pause.candidates = []) : (s.resumed p k).Sound x := by
  rcases k with - | ⟨captureError, capture⟩
  · have hsettled := (hs.settle hp hlive).1
    rw [hbare rfl, releasePending, change_nil] at hsettled
    exact hsettled
  · exact hs.setStage hp hlive.symm fun h => by cases h

theorem Sound.handleResumeFailure (hs : s.Sound x) (hp : s.pauses[p]? = some pause) (hlive : pause.stage.live = true)
    (firstError retryError : JsString) (disconnectError : Option JsString) :
    (s.handleResumeFailure p firstError retryError disconnectError).Sound x := by
  have hsettled := hs.settled hp hlive
  unfold State.handleResumeFailure
  dsimp only
  split
  · exact hsettled
  · refine hsettled.clear rfl rfl (fun o => emitted_append rfl fun seen hseen => ?_) rfl
    obtain rfl := List.mem_singleton.mp hseen
    rfl

/-- The pause is at a stage that an answer is for. -/
theorem answered_cases (s : State) (p : ℕ) (error disconnectError : Option JsString) :
    s.answered p error disconnectError = s ∨ ∃ pause k, s.pauses[p]? = some pause ∧
      (pause.stage = .resuming k ∨ ∃ firstError, pause.stage = .retrying firstError k) ∧
      (error = none ∧ s.answered p error disconnectError = (s.see [.answer p true]).resumed p k ∨
        (∃ firstError, pause.stage = .resuming k ∧ error = some firstError ∧
          s.answered p error disconnectError =
            (s.see [.answer p false, .resume p]).setStage p (.retrying firstError k)) ∨
        ∃ firstError retryError, pause.stage = .retrying firstError k ∧ error = some retryError ∧
          s.answered p error disconnectError =
            (s.see [.answer p false]).handleResumeFailure p firstError retryError disconnectError) := by
  rw [answered]
  rcases hp : s.pauses[p]? with - | pause
  · exact .inl rfl
  · rcases hstage : pause.stage with - | k | ⟨firstError, k⟩ | ⟨captureError, capture⟩ | -
    · exact .inl (by simp [hstage])
    · refine .inr ⟨pause, k, rfl, .inl hstage, ?_⟩
      rcases error with - | message
      · exact .inl ⟨rfl, by simp [hstage]⟩
      · exact .inr (.inl ⟨message, hstage, rfl, by simp [hstage]⟩)
    · refine .inr ⟨pause, k, rfl, .inr ⟨firstError, hstage⟩, ?_⟩
      rcases error with - | message
      · exact .inl ⟨rfl, by simp [hstage]⟩
      · exact .inr (.inr ⟨firstError, message, hstage, rfl, by simp [hstage]⟩)
    · exact .inl (by simp [hstage])
    · exact .inl (by simp [hstage])

theorem Sound.answered (hs : s.Sound x) (p : ℕ) (error disconnectError : Option JsString) :
    (s.answered p error disconnectError).Sound x := by
  have hsee {l : List Seen} (hl : ∀ seen ∈ l, ∀ o, seen.hits o = false) : (s.see l).Sound x := hs.see hl
  rcases s.answered_cases p error disconnectError with h | ⟨pause, k, hp, hstage, h⟩
  · rw [h]
    exact hs
  · have hfit := hs.fit pause (List.mem_of_getElem? hp)
    have hlive : pause.stage.live = true := by rcases hstage with h | ⟨_, h⟩ <;> rw [h] <;> rfl
    have hbare : k = .nothing → pause.candidates = [] := by
      rintro rfl
      refine hfit.bare ?_
      rcases hstage with h | ⟨_, h⟩ <;> rw [h] <;> rfl
    rcases h with ⟨-, h⟩ | ⟨firstError, -, -, h⟩ | ⟨firstError, retryError, -, -, h⟩
    · rw [h]
      refine (hsee fun seen hseen o => ?_).resumed hp hlive hbare
      obtain rfl := List.mem_singleton.mp hseen
      rfl
    · rw [h]
      refine (hsee fun seen hseen o => ?_).setStage (show (s.see _).pauses[p]? = some pause from hp) hlive.symm
        fun h => hbare ?_
      · rcases List.mem_pair.mp hseen with rfl | rfl <;> rfl
      · rcases k with - | ⟨captureError, capture⟩
        · rfl
        · cases h
    · rw [h]
      refine (hsee fun seen hseen o => ?_).handleResumeFailure hp hlive _ _ _
      obtain rfl := List.mem_singleton.mp hseen
      rfl

theorem Sound.errors (hs : s.Sound x) (probes : List ProbeDefinition) (detail : JsString) :
    (probes.foldl (fun s probe => s.error probe detail) s).Sound x := by
  induction probes generalizing s with
  | nil => exact hs
  | cons probe probes ih => exact ih (hs.error probe detail)

theorem Sound.report (hs : s.Sound x) : s.report.Sound x := by
  have hquiet : ({ s with failure := none } : State).Sound x := hs.quiet rfl rfl rfl fun _ => rfl
  unfold State.report
  split
  · exact hs
  · rename_i probes detail _
    split
    · exact hquiet
    · exact hquiet.errors probes detail

theorem Sound.retired (hs : s.Sound x) (o : ℕ) (error : Option JsString) : (s.retired o error).Sound x := by
  have hquiet : ({ s with retiring := s.retiring.erase o } : State).Sound x := hs.quiet rfl rfl rfl fun _ => rfl
  unfold State.retired
  dsimp only
  split
  · exact hs
  · split
    · exact hquiet.error _ _
    · exact hquiet

/-! ### Pauses -/

theorem those_subset (s : State) (q : ProbeDefinition → Bool) (candidates : List ℕ) : s.those q candidates ⊆ candidates :=
  List.filter_subset_self _

/-- The hits that a list of installations without repetitions brings. -/
theorem countP_counted {counted : List ℕ} (hnodup : counted.Nodup) (p o : ℕ) :
    (counted.map fun o => Seen.counted o p).countP (Seen.hits o) = if o ∈ counted then 1 else 0 := by
  rw [List.countP_map]
  have hcount : counted.countP (Seen.hits o ∘ fun o => Seen.counted o p) = counted.count o :=
    List.countP_congr fun o' _ => by simp [Seen.hits]
  rw [hcount, List.Nodup.count hnodup]

theorem Sound.overBudget (hs : s.Sound x) {candidates : List ℕ} (hnodup : candidates.Nodup)
    (htakes : ∀ o ∈ candidates, s.takesHit o = true) :
    (s.overBudget candidates).Sound (s.those ProbeDefinition.plainCounter candidates ++ x) := by
  have hsub := s.those_subset ProbeDefinition.plainCounter candidates
  have hthose : (s.those ProbeDefinition.plainCounter candidates).Nodup := hnodup.filter _
  refine hs.count _ (fun o ho i hi => ?_) rfl rfl rfl (fun o ho => ?_) fun o => ?_
  · obtain ⟨i', hi', -, -, -, hroom⟩ := takesHit_iff.mp (htakes o (hsub ho))
    rw [hi] at hi'
    cases hi'
    exact hroom
  · obtain ⟨i, hi, -⟩ := takesHit_iff.mp (htakes o (hsub ho))
    exact (List.getElem?_eq_some_iff.mp hi).1
  · show (s.seen ++ _).countP (Seen.hits o) = _
    rw [List.countP_append, countP_counted hthose]
    rfl

theorem Sound.handlePaused (hs : s.Sound x) (hitBreakpoints : List JsString) (token : Bool) :
    (s.handlePaused hitBreakpoints token).Sound x := by
  have htakes : ∀ o ∈ s.candidates hitBreakpoints, s.takesHit o = true := fun o h => (mem_candidates h).2
  have hnodup := hs.candidates_nodup hitBreakpoints
  unfold State.handlePaused
  dsimp only
  split
  · have hpause : (s.pause [] []).Sound x := Sound.pauseCounted [] hs
    exact hpause.resumeWithFallback (pause_last s [] []) rfl fun _ => rfl
  · split
    · refine ((hs.overBudget hnodup htakes).pauseCounted _).resumeWithFallback
        (pause_last (s.overBudget (s.candidates hitBreakpoints)) [] _) rfl fun _ => rfl
    · have hreserve := hs.reserve hnodup htakes
      split
      · exact hreserve.resumeWithFallback (pause_last (s.change _ _) _ []) rfl fun h => by cases h
      · exact hreserve

theorem Sound.captured (hs : s.Sound x) (p : ℕ) (captureError : Option JsString) (capture : PauseCapture.RawCapture) :
    (s.captured p captureError capture).Sound x := by
  unfold State.captured
  split
  · rename_i hp
    exact hs.resumeWithFallback hp rfl fun h => by cases h
  · exact hs

/-! ### Hit limits -/

/-- A retired installation goes under no name. -/
theorem Sound.not_named (hs : s.Sound x) (id : JsString) : (s.retireAtHitLimit o).installed.get? id ≠ some o := by
  intro h
  unfold State.retireAtHitLimit at h
  split at h
  · rename_i hi
    exact absurd (hs.lt_length h) (not_lt.mpr (List.getElem?_eq_none_iff.mp hi))
  · rename_i i hi
    split at h
    · rename_i hother
      rw [(hs.name_eq h hi).2] at hother
      exact hother h
    · exact (hs.delete hi h).2 (List.mem_singleton_self o)

/-- An installation below its limit need not be looked at. -/
theorem Sound.looked (hs : s.Sound (o :: x)) (h : ∀ id i, s.installed.get? id = some o → s.installations[o]? = some i →
    i.hits < i.definition.hitLimit) : s.Sound x := by
  refine ⟨hs.good, hs.fresh, hs.named, hs.fit, fun id o' i hid hi hpos hfull => ?_⟩
  rcases hs.full id o' i hid hi hpos hfull with hmem | hcounted
  · rcases List.mem_cons.mp hmem with rfl | hmem
    · exact absurd (h id i hid hi) (not_lt.mpr hfull)
    · exact .inl hmem
  · exact .inr hcounted

theorem Sound.limitCounted (hs : s.Sound (o :: x)) : (s.limitCounted o).Sound x := by
  unfold State.limitCounted
  split
  · exact (hs.retireAtHitLimit o).looked fun id i h _ => absurd h (hs.not_named id)
  · rename_i hbelow
    refine hs.looked fun id i _ hi => ?_
    rw [hi, Option.any_some, decide_eq_true_eq, not_le] at hbelow
    exact hbelow

theorem Sound.limitAll {counted : List ℕ} (hs : s.Sound (counted ++ x)) : (counted.foldl State.limitCounted s).Sound x := by
  induction counted generalizing s with
  | nil => exact hs
  | cons o counted ih => exact ih (Sound.limitCounted hs)

theorem Sound.retireCounted (hs : s.Sound x) (p : ℕ) : (s.retireCounted p).Sound x := by
  unfold State.retireCounted
  split
  · exact hs
  · rename_i pause hp
    have hfit := hs.fit pause (List.mem_of_getElem? hp)
    have hholding (o : ℕ) :
        State.holding { s with pauses := s.pauses.modify p fun pause => { pause with counted := [] } } o = s.holding o :=
      countP_modify (q := Pause.holds o) (f := fun pause => { pause with counted := [] }) (fun _ => rfl) p
    refine Sound.limitAll ⟨fun o i h => (hs.good o i h).congr rfl (hholding o), fun o h => ?_, hs.named,
      hs.fit_modify hp ⟨hfit.nodup, hfit.bare⟩, fun id o i h hi hpos hfull => ?_⟩
    · rw [hholding]
      exact hs.fresh o h
    · -- who waits for this pause is looked at now, the others wait for theirs as before
      rcases hs.full id o i h hi hpos hfull with hmem | ⟨pause', hmem, ho⟩
      · exact .inl (List.mem_append_right _ hmem)
      · obtain ⟨q, hq⟩ := List.getElem?_of_mem hmem
        by_cases hpq : p = q
        · subst hpq
          rw [hp] at hq
          cases hq
          exact .inl (List.mem_append_left _ ho)
        · refine .inr ⟨pause', List.mem_of_getElem? (i := q) ?_, ho⟩
          show (s.pauses.modify p fun pause => { pause with counted := [] })[q]? = _
          rw [List.getElem?_modify, hq]
          simp [hpq]

/-! ### Processing -/

theorem Sound.countHit (hs : s.Sound x) (hi : s.installations[o]? = some i)
    (hroom : i.hits + i.pending < i.definition.hitLimit) (p : ℕ) : (s.countHit p o).Sound x := by
  refine Sound.limitCounted (hs.count (t := (s.change [o] fun i => { i with hits := i.hits + 1 }).see [.hit o p])
    [o] (fun o' ho i' hi' => ?_) rfl rfl rfl (fun o' ho => ?_) fun o' => ?_)
  · obtain rfl := List.mem_singleton.mp ho
    rw [hi] at hi'
    cases hi'
    exact hroom
  · obtain rfl := List.mem_singleton.mp ho
    exact (List.getElem?_eq_some_iff.mp hi).1
  · show (s.seen ++ [Seen.hit o p]).countP (Seen.hits o') = _
    rw [List.countP_append]
    by_cases h : o = o'
    · subst h
      simp [Seen.hits, emitted]
    · have h' : o' ≠ o := Ne.symm h
      simp [Seen.hits, emitted, h, h']

/-- Retiring an installation leaves the others alone. -/
theorem retireAtHitLimit_installations {o' : ℕ} (h : o' ≠ o) :
    (s.retireAtHitLimit o).installations[o']? = s.installations[o']? := by
  unfold State.retireAtHitLimit
  split
  · rfl
  · split
    · rfl
    · show (s.deactivate [o]).installations[o']? = _
      rw [deactivate, change_installations]
      simp [h]

theorem countHit_installations {o' : ℕ} (h : o' ≠ o) (p : ℕ) :
    (s.countHit p o).installations[o']? = s.installations[o']? := by
  have hchange : ((s.change [o] fun i => { i with hits := i.hits + 1 }).see [.hit o p]).installations[o']? =
      s.installations[o']? := by
    show (s.change [o] fun i => { i with hits := i.hits + 1 }).installations[o']? = _
    rw [change_installations]
    simp [h]
  unfold State.countHit State.limitCounted
  split
  · rw [retireAtHitLimit_installations h, hchange]
  · exact hchange

variable {lower : JsString → JsString} {config : PauseCapture.ManagerConfig} {captureError : Option JsString}
  {capture : PauseCapture.RawCapture}

/-- What a candidate's turn comes to: nothing that counts, or a hit of an active installation. -/
theorem processCandidate_cases (s : State) (o p : ℕ) :
    s.processCandidate lower config captureError capture p o = s ∨
    (∃ probe detail, s.processCandidate lower config captureError capture p o = s.error probe detail) ∨
    ∃ i, s.installations[o]? = some i ∧ i.active = true ∧ s.installed.get? i.definition.id = some o ∧
      captureError = none ∧ verdict lower config i.definition capture = .hit ∧
      s.processCandidate lower config captureError capture p o = s.countHit p o := by
  unfold State.processCandidate
  split
  · exact .inl rfl
  · rename_i i hi
    split
    · exact .inl rfl
    · rename_i hstands
      rw [Bool.or_eq_true, not_or, Bool.not_eq_true', Bool.not_eq_false, decide_eq_true_eq, not_not] at hstands
      split
      · exact .inr (.inl ⟨_, _, rfl⟩)
      · split
        · exact .inl rfl
        · exact .inr (.inl ⟨_, _, rfl⟩)
        · rename_i hverdict
          exact .inr (.inr ⟨i, hi, hstands.1, hstands.2, rfl, hverdict, rfl⟩)

theorem processCandidate_installations {o' : ℕ} (h : o' ≠ o) (p : ℕ) :
    (s.processCandidate lower config captureError capture p o).installations[o']? = s.installations[o']? := by
  rcases s.processCandidate_cases o p with heq | ⟨probe, detail, heq⟩ | ⟨i, -, -, -, -, -, heq⟩
  · rw [heq]
  · rw [heq]
    rfl
  · rw [heq, countHit_installations h]

/-- The candidates of a pause are processed, each in the room that it has left. -/
theorem Sound.processAll {candidates : List ℕ} (hs : s.Sound x) (hnodup : candidates.Nodup)
    (hroom : ∀ o ∈ candidates, ∀ i, s.installations[o]? = some i → i.active = true →
      i.hits + i.pending < i.definition.hitLimit) (p : ℕ) :
    (candidates.foldl (State.processCandidate lower config captureError capture p) s).Sound x := by
  induction candidates generalizing s with
  | nil => exact hs
  | cons o candidates ih =>
    obtain ⟨ho, hrest⟩ := List.nodup_cons.mp hnodup
    have hstep : (s.processCandidate lower config captureError capture p o).Sound x := by
      rcases s.processCandidate_cases o p with heq | ⟨probe, detail, heq⟩ | ⟨i, hi, hactive, -, -, -, heq⟩
      · rw [heq]
        exact hs
      · rw [heq]
        exact hs.error probe detail
      · rw [heq]
        exact hs.countHit hi (hroom o List.mem_cons_self i hi hactive) p
    refine ih hstep hrest fun o' ho' i hi hactive => ?_
    have hne : o' ≠ o := fun h => ho (h ▸ ho')
    rw [processCandidate_installations hne] at hi
    exact hroom o' (List.mem_cons_of_mem o ho') i hi hactive

theorem Sound.process (hs : s.Sound x) (p : ℕ) : (s.process lower config p).Sound x := by
  unfold State.process
  split
  · rename_i candidates captureEpoch captureError capture counted hp
    obtain ⟨hsettled, hroom⟩ := hs.settle hp rfl
    dsimp only
    split
    · exact hsettled
    · exact hsettled.processAll (hs.fit _ (List.mem_of_getElem? hp)).nodup hroom p
  · exact hs

/-! ### Arming and reconciling -/

theorem Sound.install (hs : s.Sound x) (probe : ProbeDefinition) (breakpointId : JsString) :
    (s.install probe breakpointId).Sound x := by
  have hemitted (o : ℕ) : (s.install probe breakpointId).emitted o = s.emitted o :=
    emitted_append rfl fun seen hseen => by
      obtain rfl := List.mem_singleton.mp hseen
      rfl
  have hold (o : ℕ) (h : o < s.installations.length) :
      (s.install probe breakpointId).installations[o]? = s.installations[o]? := List.getElem?_append_left h
  have hlast : (s.install probe breakpointId).installations[s.installations.length]? =
      some { definition := probe, breakpointId := breakpointId } := List.getElem?_concat_length
  -- an installation of the new state is the new one or an old one
  have hcases : ∀ o i, (s.install probe breakpointId).installations[o]? = some i →
      o = s.installations.length ∧ i = { definition := probe, breakpointId := breakpointId } ∨
        s.installations[o]? = some i := by
    intro o i h
    rcases Nat.lt_trichotomy o s.installations.length with hlt | rfl | hgt
    · exact .inr (hold o hlt ▸ h)
    · rw [hlast] at h
      exact .inl ⟨rfl, (Option.some.inj h).symm⟩
    · have hlen : (s.install probe breakpointId).installations.length = s.installations.length + 1 :=
        List.length_append
      rw [List.getElem?_eq_none (by omega)] at h
      cases h
  have hnames : ∀ id o, (s.install probe breakpointId).installed.get? id = some o →
      id = probe.id ∧ o = s.installations.length ∨ s.installed.get? id = some o := by
    intro id o h
    have h : (s.installed.set probe.id s.installations.length).get? id = some o := h
    rw [JsMap.get?_set] at h
    split at h
    · rename_i hid
      exact .inl ⟨hid, (Option.some.inj h).symm⟩
    · exact .inr h
  refine ⟨fun o i h => ?_, fun o h => ?_, fun id o h => ?_, hs.fit, fun id o i h hi hpos hfull => ?_⟩
  · rcases hcases o i h with ⟨rfl, rfl⟩ | h
    · obtain ⟨hholding, hemit⟩ := hs.fresh s.installations.length le_rfl
      exact ⟨(hemitted _).trans hemit, Nat.zero_le _, fun _ => ⟨hholding.symm, Nat.zero_le _⟩⟩
    · exact (hs.good o i h).congr (hemitted o) rfl
  · rw [hemitted]
    refine hs.fresh o (le_trans ?_ h)
    show _ ≤ (s.installations ++ _).length
    rw [List.length_append]
    exact Nat.le_add_right _ _
  · rcases hnames id o h with ⟨rfl, rfl⟩ | h
    · exact ⟨_, hlast, rfl, rfl⟩
    · obtain ⟨i, hi, hactive, hid⟩ := hs.named id o h
      exact ⟨i, (hold o (hs.lt_length h)).trans hi, hactive, hid⟩
  · rcases hcases o i hi with ⟨rfl, rfl⟩ | hi
    · cases hpos
    · rcases hnames id o h with ⟨-, rfl⟩ | h
      · rw [List.getElem?_eq_none le_rfl] at hi
        cases hi
      · exact hs.full id o i h hi hpos hfull

theorem Sound.ensureArmed (hs : s.Sound x) (probe : ProbeDefinition) (resolution : Resolution) :
    (s.ensureArmed probe resolution).Sound x := by
  unfold State.ensureArmed
  split
  · exact hs
  · dsimp only
    split
    · exact hs.error _ _
    · exact hs.error _ _
    · exact hs.quiet rfl rfl rfl fun _ => rfl

theorem Sound.finishArm (hs : s.Sound x) (a : ℕ) (probeId : JsString) : (s.finishArm a probeId).Sound x :=
  hs.quiet rfl rfl rfl fun _ => rfl

theorem Sound.acquired (hs : s.Sound x) (a : ℕ) : (s.acquired a).Sound x := by
  unfold State.acquired
  split
  · split
    · exact hs.finishArm _ _
    · split
      · exact hs.quiet rfl rfl rfl fun _ => rfl
      · exact (hs.install _ _).finishArm _ _
    · exact hs
  · exact hs

theorem Sound.released (hs : s.Sound x) (a : ℕ) : (s.released a).Sound x := by
  unfold State.released
  split
  · exact hs.finishArm _ _
  · exact hs

theorem Sound.reconcile (hs : s.Sound x) (probes : List ProbeDefinition) : (s.reconcile probes).Sound x := by
  unfold State.reconcile
  split
  · exact hs
  · exact hs.quiet rfl rfl rfl fun _ => rfl

theorem Sound.reconcileNext (hs : s.Sound x) (r : ℕ) : (s.reconcileNext r).Sound x := by
  unfold State.reconcileNext
  split
  · rename_i probes id o rest _
    have hnext : (s.setReconciling r ⟨probes, rest, false⟩).Sound x := hs.quiet rfl rfl rfl fun _ => rfl
    dsimp only
    split
    · exact hnext.uninstall o
    · exact hnext
  · exact hs.quiet rfl rfl rfl fun _ => rfl
  · exact hs

theorem Sound.next (hs : s.Sound x) (e : Event) : (next lower config s e).Sound x := by
  cases e with
  | paused hitBreakpoints token => exact hs.handlePaused hitBreakpoints token
  | retireCounted p => exact hs.retireCounted p
  | captured p captureError capture => exact hs.captured p captureError capture
  | answered p error disconnectError => exact hs.answered p error disconnectError
  | process p => exact hs.process p
  | report => exact hs.report
  | retired o error => exact hs.retired o error
  | ensureArmed probe resolution => exact hs.ensureArmed probe resolution
  | acquired a => exact hs.acquired a
  | released a => exact hs.released a
  | registry e =>
    show (ite _ _ _ : State).Sound x
    split
    · exact hs.quiet rfl rfl rfl fun _ => rfl
    · exact hs
  | reconcile probes => exact hs.reconcile probes
  | reconcileNext r => exact hs.reconcileNext r
  | suspendAll detail => exact hs.suspendAll detail
  | rearm => exact hs.rearm
  | stop => exact hs.stop

end State

/-! ### Runs -/

/-- The states that the manager reaches, in whatever order things happen. -/
def Reachable (lower : JsString → JsString) (config : PauseCapture.ManagerConfig) (s : State) : Prop :=
  Reached (next lower config) (fun _ _ => True) {} s

variable {lower : JsString → JsString} {config : PauseCapture.ManagerConfig} {s : State} {o : ℕ} {i : InstalledProbe}

theorem Reachable.sound (h : Reachable lower config s) : s.Sound [] :=
  h.invariant (I := fun s => s.Sound []) State.Sound.init fun _ e hs _ => hs.next e

/-- No pause is on its way. -/
def State.Idle (s : State) : Prop := ∀ pause ∈ s.pauses, pause.stage.live = false ∧ pause.counted = []

/-- **Hits are accounted for.**  However captures, resumes, reconciles and
suspensions interleave, an installation has taken as many hits as were seen of
it and no more than its limit; while it is active, its reservations are those of
the pauses on their way, and there is room for all of them.  When no pause is on
its way, every probe that is installed has room for another hit. -/
theorem hits_accounted (h : Reachable lower config s) (hi : s.installations[o]? = some i) :
    s.emitted o = i.hits ∧ i.hits ≤ i.definition.hitLimit ∧
      (i.active = true → i.pending = s.holding o ∧ i.hits + i.pending ≤ i.definition.hitLimit) ∧
      (s.Idle → s.installed.get? i.definition.id = some o → 0 < i.definition.hitLimit →
        i.active = true ∧ i.hits + i.pending < i.definition.hitLimit) := by
  have hs := h.sound
  obtain ⟨hemitted, hlimit, hroom⟩ := hs.good o i hi
  refine ⟨hemitted, hlimit, hroom, fun hidle hname hpos => ?_⟩
  obtain ⟨hactive, -⟩ := hs.name_eq hname hi
  obtain ⟨hpending, -⟩ := hroom hactive
  have hnone : s.holding o = 0 := by
    refine List.countP_eq_zero.mpr fun pause hmem => ?_
    rw [Pause.holds, (hidle pause hmem).1, Bool.false_and]
    exact Bool.false_ne_true
  have hbelow : i.hits < i.definition.hitLimit := by
    rcases Nat.lt_or_ge i.hits i.definition.hitLimit with hlt | hge
    · exact hlt
    · rcases hs.full _ o i hname hi (hpos.trans_le hge) hge with hmem | ⟨pause, hmem, ho⟩
      · cases hmem
      · rw [(hidle pause hmem).2] at ho
        cases ho
  exact ⟨hactive, by omega⟩

/-! ### A counter with two pauses -/

/-- A counter on line 12 that counts two passes. -/
def sampleProbe : ProbeDefinition where
  id := js "p"
  file := js "app.js"
  line := 12
  fingerprint := js "v1"
  type := .counter
  hitLimit := 2

/-- The counter is armed. -/
def arming : List Event :=
  [.reconcile [sampleProbe], .reconcileNext 0, .ensureArmed sampleProbe (.found ⟨js "7", js "file:///srv/app.js"⟩),
    .registry (.answer 0 (.response (js "b") [some ⟨some (js "7"), some 11, some 0⟩])), .registry (.install 0),
    .registry (.resume 0), .acquired 0]

/-- The first pause has been counted, the second is on its way. -/
def counting : List Event :=
  arming ++ [.paused [js "b"] true, .answered 0 none none, .process 0, .paused [js "b"] true]

theorem counting_accounted :
    ∃ i, (counting.foldl (next id PauseCapture.defaultManagerConfig) {}).installations[0]? = some i ∧
      i.hits = 1 ∧ i.pending = 1 ∧ (counting.foldl (next id PauseCapture.defaultManagerConfig) {}).emitted 0 = i.hits ∧
      (i.active = true → i.pending = (counting.foldl (next id PauseCapture.defaultManagerConfig) {}).holding 0 ∧
        i.hits + i.pending ≤ i.definition.hitLimit) := by
  have hi : (counting.foldl (next id PauseCapture.defaultManagerConfig) {}).installations[0]? =
      some ⟨sampleProbe, js "b", true, 1, 1⟩ := rfl
  obtain ⟨hemitted, -, hroom, -⟩ := hits_accounted (Reached.foldl .init (.of_forall (fun _ _ _ => trivial) _)) hi
  exact ⟨_, hi, rfl, rfl, hemitted, hroom⟩

end NodeProbes
