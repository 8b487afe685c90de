/-
LiveProbe/HitLimit.lean

The hit limit of a logical probe.

All sites of a probe in one instance share one count, `logical_captures`, and
an event or a delta goes out only as far as the limit leaves room over that
count.  So the limit holds as long as the count is not below what has gone out.

The count is dropped when a cycle desires no site of the probe.  Nothing brings
it back: a probe that is desired again, or that is still attached because its
detach failed, is counted from zero.  The limit is kept in every run in which a
probe whose count was dropped is neither desired nor attached afterwards.
-/
import LiveProbe.Ownership

namespace NativeAgent

open Outcome

/-- A version of a probe in one build of one instance. -/
structure LogicalProbe where
  instanceId : String
  buildId : String
  probeId : String
  probeVersion : ℕ
  deriving DecidableEq, Repr

/-- `assignment_logical_key`. -/
def LogicalProbe.key (p : LogicalProbe) : String :=
  p.instanceId ++ "\x00" ++ p.buildId ++ "\x00" ++ p.probeId ++ "\x00" ++ toString p.probeVersion

def Handed.logical (h : Handed) : LogicalProbe where
  instanceId := h.instanceId
  buildId := h.buildId
  probeId := h.probeId
  probeVersion := h.probeVersion

def ActiveSite.logical (a : ActiveSite) : LogicalProbe where
  instanceId := a.target.instanceId
  buildId := a.target.buildId
  probeId := a.site.probe.id
  probeVersion := a.site.probe.version

theorem ActiveSite.logicalKey_eq (a : ActiveSite) : logicalKey a.site a.target = a.logical.key := rfl

/-- The events and deltas of a logical probe that were handed to the broker client. -/
def World.total (w : World) (p : LogicalProbe) : ℕ :=
  ((w.handed.filter (·.logical = p)).map (·.count)).sum

/-- A version of a probe has one hit limit, whenever the broker assigns it. -/
def Cycle.Assigns (cycle : Cycle) (hitLimit : String → ℕ → ℕ) : Prop :=
  ∀ instances since answer, cycle.poll instances since = some answer →
    ∀ assignment ∈ answer.assignments, ∀ probe ∈ assignment.probes,
      probe.hitLimit = hitLimit probe.id probe.version

/-- The logical probes whose count a cycle drops although something was counted. -/
def World.forgotten (cycle : Cycle) (w : World) : List String :=
  (w.logicalCaptures.entries.filter fun e => 0 < e.2 ∧ e.1 ∉ (w.prepare cycle).2.logicals).map Prod.fst

/-- The logical probes that are desired in a cycle or attached when attaching begins. -/
def World.used (cycle : Cycle) (w : World) : List String :=
  (w.prepare cycle).2.logicals ++ (w.prepare cycle).1.active.values.map fun a => logicalKey a.site a.target

/-- The states at the ends of the cycles of a run, for a broker with these hit limits. -/
inductive MeteredRun (config : SafetyConfig) (hitLimit : String → ℕ → ℕ) : World → Prop
  | start (identity : LoaderIdentity) : MeteredRun config hitLimit (.start identity)
  | cycle {w : World} {cycle : Cycle} (run : MeteredRun config hitLimit w)
      (assigns : cycle.Assigns hitLimit) : MeteredRun config hitLimit (w.reconcile config cycle)

/-- A run in which no probe is used whose count was dropped; with the probes whose
count was dropped so far. -/
inductive RememberingRun (config : SafetyConfig) (hitLimit : String → ℕ → ℕ) : World → List String → Prop
  | start (identity : LoaderIdentity) : RememberingRun config hitLimit (.start identity) []
  | cycle {w : World} {lost : List String} {cycle : Cycle} (run : RememberingRun config hitLimit w lost)
      (assigns : cycle.Assigns hitLimit)
      (remembers : ∀ logical ∈ w.used cycle, logical ∉ lost ++ w.forgotten cycle) :
      RememberingRun config hitLimit (w.reconcile config cycle) (lost ++ w.forgotten cycle)

/-! ### The invariant -/

/-- A site with the limit of its probe, whose count was not dropped. -/
def ActiveSite.Counted (hitLimit : String → ℕ → ℕ) (lost : List String) (a : ActiveSite) : Prop :=
  a.site.probe.hitLimit = hitLimit a.site.probe.id a.site.probe.version ∧ a.logical.key ∉ lost

/-- A count is not below what has gone out, and neither is the limit. -/
structure Metered (hitLimit : String → ℕ → ℕ) (lost : List String) (w : World) : Prop where
  bounded : ∀ p, w.total p ≤ hitLimit p.probeId p.probeVersion
  counted : ∀ p : LogicalProbe, p.key ∉ lost → w.total p ≤ (w.logicalCaptures.get? p.key).getD 0
  active : w.active.All fun _ a => a.Counted hitLimit lost

section
variable {cycle : Cycle} {hitLimit : String → ℕ → ℕ} {lost : List String} {w : World}

theorem Metered.of_books {w' : World} (h : Metered hitLimit lost w)
    (hcaptures : w'.logicalCaptures = w.logicalCaptures) (hhanded : w'.handed = w.handed)
    (hactive : w'.active.All fun _ a => a.Counted hitLimit lost) : Metered hitLimit lost w' where
  bounded := by
    intro p
    unfold World.total
    rw [hhanded]
    exact h.bounded p
  counted := by
    intro p hp
    unfold World.total
    rw [hhanded, hcaptures]
    exact h.counted p hp
  active := hactive

namespace Observed

variable {o : Observed}

theorem total_send (active : ActiveSite) (count : ℕ) (p : LogicalProbe) :
    (o.send active count).world.total p
      = o.world.total p + if active.logical = p then count else 0 := by
  show (((o.world.handed ++ [_]).filter _).map _).sum = _
  rw [List.filter_append, List.map_append, List.sum_append]
  by_cases hp : active.logical = p
  · rw [if_pos hp, List.filter_cons_of_pos (by exact decide_eq_true hp)]
    rfl
  · rw [if_neg hp, List.filter_cons_of_neg (by exact fun h => hp (of_decide_eq_true h))]
    rfl

theorem accepted_setAccepted (logical : String) (count : ℕ) :
    (o.setAccepted logical count).accepted logical = count := by
  show (((o.world.logicalCaptures.set logical count).get? logical)).getD 0 = count
  rw [JsMap.get?_set_self]
  rfl

end Observed

/-- What the limit leaves room for may go out. -/
theorem Metered.accept {o : Observed} {active : ActiveSite}
    (h : Metered hitLimit lost o.world) (hactive : active.Counted hitLimit lost) (count : ℕ)
    (hroom : o.accepted active.logical.key + count ≤ active.site.probe.hitLimit) :
    Metered hitLimit lost ((o.send active count).setAccepted active.logical.key
      (o.accepted active.logical.key + count)).world where
  bounded := by
    intro p
    show (o.send active count).world.total p ≤ _
    rw [Observed.total_send]
    by_cases hp : active.logical = p
    · subst hp
      rw [if_pos rfl]
      calc o.world.total active.logical + count
          ≤ o.accepted active.logical.key + count := Nat.add_le_add_right (h.counted _ hactive.2) count
        _ ≤ active.site.probe.hitLimit := hroom
        _ = hitLimit active.logical.probeId active.logical.probeVersion := hactive.1
    · rw [if_neg hp]
      exact h.bounded p
  counted := by
    intro p hp
    show (o.send active count).world.total p
      ≤ ((o.world.logicalCaptures.set active.logical.key _).get? p.key).getD 0
    have hbefore := h.counted p hp
    rw [Observed.total_send, JsMap.get?_set]
    by_cases hkey : p.key = active.logical.key
    · rw [if_pos hkey, Option.getD_some]
      rw [hkey] at hbefore
      have hone : (if active.logical = p then count else 0) ≤ count := by
        split
        · exact le_rfl
        · exact Nat.zero_le count
      exact Nat.add_le_add hbefore hone
    · have hne : ¬ active.logical = p := fun heq => hkey (congrArg LogicalProbe.key heq.symm)
      rw [if_neg hkey, if_neg hne]
      exact hbefore
  active := h.active

/-- `entry(logical).or_default()`. -/
theorem Metered.enter {o : Observed} (h : Metered hitLimit lost o.world) (logical : String) :
    Metered hitLimit lost (o.setAccepted logical (o.accepted logical)).world where
  bounded := h.bounded
  counted := by
    intro p hp
    show o.world.total p ≤ ((o.world.logicalCaptures.set logical _).get? p.key).getD 0
    rw [JsMap.get?_set]
    split
    · rename_i hkey
      rw [Option.getD_some, ← hkey]
      exact h.counted p hp
    · exact h.counted p hp
  active := h.active

theorem Metered.setActive {o : Observed} (h : Metered hitLimit lost o.world) (siteId : String)
    (active : ActiveSite) (hactive : active.Counted hitLimit lost) :
    Metered hitLimit lost (o.setActive siteId active).world where
  bounded := h.bounded
  counted := h.counted
  active := h.active.set hactive

/-! ### Events and counters -/

theorem Metered.shortRecord {o : Observed} (h : Metered hitLimit lost o.world) :
    Metered hitLimit lost (o.shortRecord cycle).world := by
  unfold Observed.shortRecord
  split
  · exact h
  · dsimp only
    split <;> exact ⟨h.bounded, h.counted, h.active⟩

theorem Metered.siteRecord {o : Observed} {siteId : String} {active : ActiveSite}
    {outcome : IsolatedDecode} (h : Metered hitLimit lost o.world)
    (hactive : active.Counted hitLimit lost) :
    Metered hitLimit lost (o.siteRecord siteId active outcome).world := by
  have hentered := h.enter active.logical.key
  unfold Observed.siteRecord
  dsimp only
  rw [ActiveSite.logicalKey_eq]
  split
  · exact hentered
  · rename_i hbelow
    cases outcome with
    | filtered => exact hentered
    | event withinBudget =>
      dsimp only
      split
      · have hsame := Observed.accepted_setAccepted (o := o) active.logical.key
          (o.accepted active.logical.key)
        have hsent := hentered.accept hactive 1 (by rw [hsame]; omega)
        rw [hsame] at hsent
        split <;> exact hsent
      · exact hentered
    | failed =>
      have hset := hentered.setActive siteId
        { active with failures := min (active.failures + 1) (2 ^ 32 - 1) } hactive
      dsimp only
      split <;> exact hset

theorem Metered.record {o : Observed} {r : Record} (h : Metered hitLimit lost o.world) :
    Metered hitLimit lost (o.record cycle r).world := by
  unfold Observed.record
  split
  · exact h.shortRecord
  · split
    · exact h
    · rename_i siteId active hfind
      refine h.siteRecord (h.active siteId active (JsMap.get?_eq_some_iff.mpr ?_))
      exact (cycle.arrange _).mem_run.mp (List.mem_of_find?_eq_some hfind)

theorem Metered.call (h : Metered hitLimit lost w) (cycle : Cycle) (request : LoaderRequest) :
    Metered hitLimit lost (w.call cycle request).1 := ⟨h.bounded, h.counted, h.active⟩

theorem Metered.pollBatches {batches : ℕ} {o : Observed} (h : Metered hitLimit lost o.world) :
    Metered hitLimit lost (o.pollBatches cycle batches).world := by
  induction batches generalizing o with
  | zero => exact h
  | succ batches ih =>
    have hpolled := h.call cycle .pollEvents
    unfold Observed.pollBatches
    dsimp only
    split
    · exact hpolled
    · rename_i records _ _
      refine ih (List.foldlRecOn (motive := fun o : Observed => Metered hitLimit lost o.world) records _
        hpolled fun o ho r _ => ho.record)
    · exact hpolled

/-- A delta is cut down to what the limit leaves. -/
theorem Metered.countCaptures {o : Observed} {active : ActiveSite}
    (h : Metered hitLimit lost o.world) (hactive : active.Counted hitLimit lost) (captures : ℕ) :
    Metered hitLimit lost (o.countCaptures active captures).world := by
  unfold Observed.countCaptures
  split
  · dsimp only
    rw [ActiveSite.logicalKey_eq]
    have hroom : ∀ delta, 0 < delta → delta ≤ active.site.probe.hitLimit - o.accepted active.logical.key →
        o.accepted active.logical.key + delta ≤ active.site.probe.hitLimit := by omega
    by_cases hdelta : 0 < min (captures - active.lastCaptures)
        (active.site.probe.hitLimit - o.accepted active.logical.key)
    · rw [if_pos hdelta]
      have hsent := h.accept hactive _ (hroom _ hdelta (Nat.min_le_right _ _))
      split <;> exact hsent
    · rw [if_neg hdelta, Nat.eq_zero_of_not_pos hdelta]
      split <;> exact h.enter active.logical.key
  · exact h

theorem Metered.counter {o : Observed} {siteId : String} (h : Metered hitLimit lost o.world) :
    Metered hitLimit lost (o.counter cycle siteId).world := by
  unfold Observed.counter
  split
  · exact h
  · rename_i active hget
    have hactive := h.active siteId active hget
    have hread := h.call cycle (.readCounters active.site.cookie)
    dsimp only
    split
    · rename_i counters _
      have hcounted := (hread.countCaptures
        (o := { o with world := (o.world.call cycle (.readCounters active.site.cookie)).1 })
        hactive counters.captures).setActive siteId
          { active with lastCaptures := counters.captures } hactive
      split <;> exact hcounted
    · exact hread

theorem Metered.safetyDetach {siteId : String} (h : Metered hitLimit lost w) :
    Metered hitLimit lost (w.safetyDetach cycle siteId) := by
  unfold World.safetyDetach
  dsimp only
  split
  · exact ⟨h.bounded, h.counted, h.active.delete siteId⟩
  · split <;> exact ⟨h.bounded, h.counted, h.active⟩

theorem Metered.observe (h : Metered hitLimit lost w) : Metered hitLimit lost (w.observe cycle) := by
  have hpolled : Metered hitLimit lost (({ world := w : Observed }).pollEvents cycle).world := h.pollBatches
  have hcounted : Metered hitLimit lost
      ((({ world := w : Observed }).pollEvents cycle).readCounters cycle).world := by
    unfold Observed.readCounters
    split
    · exact List.foldlRecOn (motive := fun o : Observed => Metered hitLimit lost o.world) _ _ hpolled
        fun o ho siteId _ => ho.counter
    · exact hpolled
  have hunsafe : Metered hitLimit lost
      (((({ world := w : Observed }).pollEvents cycle).readCounters cycle).terminateUnsafe cycle).world :=
    List.foldlRecOn (motive := fun o : Observed => Metered hitLimit lost o.world) _ _ hcounted
      fun _ ho _ _ => ⟨ho.bounded, ho.counted, ho.active⟩
  have hhost : Metered hitLimit lost
      ((((({ world := w : Observed }).pollEvents cycle).readCounters cycle).terminateUnsafe cycle).detachHost
        cycle).world := by
    unfold Observed.detachHost
    split <;> exact hunsafe
  have hreached : Metered hitLimit lost
      (((((({ world := w : Observed }).pollEvents cycle).readCounters cycle).terminateUnsafe cycle).detachHost
        cycle).terminateReached cycle).world := by
    refine List.foldlRecOn (motive := fun o : Observed => Metered hitLimit lost o.world) _ _ hhost
      fun o ho logical _ => ?_
    split
    · exact ho
    · exact ⟨ho.bounded, ho.counted, ho.active⟩
  exact List.foldlRecOn _ _ hreached fun _ hb _ _ => hb.safetyDetach

/-! ### Before reading -/

theorem World.active_prepare {P : String → ActiveSite → Prop} (h : w.active.All P) :
    (w.prepare cycle).1.active.All P := by
  have hbegun : (w.begin cycle).active.All P := by
    unfold World.begin
    cases cycle.restarted <;> exact h
  have hverified : ((w.begin cycle).verifyLoader cycle).active.All P := by
    unfold World.verifyLoader
    split
    · dsimp only
      split
      · split
        · exact hbegun
        · exact JsMap.All.empty
      · exact hbegun
    · exact hbegun
  have hretried : (((w.begin cycle).verifyLoader cycle).retryPendingDetaches cycle).active.All P := by
    unfold World.retryPendingDetaches
    split
    · refine List.foldlRecOn (motive := fun b : World => b.active.All P) _ _ hverified
        fun b hb siteId _ => ?_
      unfold World.retryDetach
      dsimp only
      split
      · exact hb.delete siteId
      · exact hb
    · exact hverified
  refine List.foldlRecOn (motive := fun b : World => b.active.All P) _ _ hretried fun b hb siteId _ => ?_
  unfold World.detachStaleSite
  split
  · dsimp only
    split
    · exact hb.delete siteId
    · exact hb
  · exact hb

theorem World.active_finishPreflight {config : SafetyConfig} {site : PlannedSite}
    {target : DiscoveredInstance} : (w.finishPreflight config cycle site target).1.active = w.active := by
  unfold World.finishPreflight
  dsimp only
  split
  · rfl
  · split <;> rfl

theorem World.active_preflight {config : SafetyConfig} {site : PlannedSite} {target : DiscoveredInstance} :
    (w.preflight config cycle site target).1.active = w.active := by
  unfold World.preflight
  split
  · rfl
  · dsimp only
    split
    · rfl
    · split
      · rfl
      · exact World.active_finishPreflight
    · rfl

theorem World.active_attachSites {config : SafetyConfig} {P : String → ActiveSite → Prop}
    {es : List (String × PlannedSite × DiscoveredInstance)} (h : w.active.All P)
    (hes : ∀ e ∈ es, ∀ request, P e.1
      { site := e.2.1.attached request, target := e.2.2, lastCaptures := 0, failures := 0 }) :
    (World.attachSites config cycle es w).1.active.All P := by
  induction es generalizing w with
  | nil => exact h
  | cons e es ih =>
    have hflight : (w.preflight config cycle e.2.1 e.2.2).1.active.All P := by
      rw [World.active_preflight]
      exact h
    have hturn : (w.attachSite config cycle e).1.active.All P := by
      unfold World.attachSite
      split
      · exact h
      · dsimp only
        split
        · exact hflight
        · exact hflight
        · unfold World.attachPlanned
          dsimp only
          split
          · exact hflight.set (hes e List.mem_cons_self _)
          · exact hflight
          · exact hflight
    unfold World.attachSites
    dsimp only
    split
    · exact hturn
    · exact ih hturn fun e' he' => hes e' (List.mem_cons_of_mem e he')

/-! ### Runs -/

/-- The sites that are planned have the limit of their probe. -/
def Desired.Limited (hitLimit : String → ℕ → ℕ) (desired : Desired) : Prop :=
  desired.All fun _ e => e.1.probe.hitLimit = hitLimit e.1.probe.id e.1.probe.version

/-- Planning a probe does not change it. -/
theorem planProbe_probe {symbols : Symbols} {target : DiscoveredInstance} {probe : ProbeAssignment} {path : String}
    {sites : List PlannedSite} (h : planProbe symbols target probe path = .ok sites) :
    ∀ site ∈ sites, site.probe = probe := by
  obtain ⟨planned, -, hrest⟩ := bind_eq_ok.mp h
  split at hrest
  · cases hrest
  · cases hrest
    intro site hsite
    obtain ⟨index, hindex, rfl⟩ := List.mem_mapIdx.mp hsite
    rfl

theorem DesiredState.next_limited {s : DesiredState} (h : Desired.Limited hitLimit s.cachedDesired)
    (assigns : cycle.Assigns hitLimit) :
    Desired.Limited hitLimit (s.next cycle).1.cachedDesired ∧ Desired.Limited hitLimit (s.next cycle).2 := by
  refine DesiredState.next_all (fun answer hanswer assignment hassignment probe hprobe target path sites
    hplan site hsite => ?_) h
  rw [planProbe_probe hplan site hsite]
  exact assigns _ _ answer hanswer assignment hassignment probe hprobe

/-- A count that is dropped above zero is remembered as dropped. -/
theorem Metered.retain (h : Metered hitLimit lost w)
    (hused : ∀ logical ∈ w.used cycle, logical ∉ lost ++ w.forgotten cycle) :
    Metered hitLimit (lost ++ w.forgotten cycle)
      ((w.prepare cycle).1.retainDesired (w.prepare cycle).2) := by
  have hcaptures : (w.prepare cycle).1.logicalCaptures = w.logicalCaptures :=
    congrArg (·.2.1) World.books_prepare
  have hhanded : (w.prepare cycle).1.handed = w.handed := congrArg (·.2.2) World.books_prepare
  have htotal : ∀ p, ((w.prepare cycle).1.retainDesired (w.prepare cycle).2).total p = w.total p := by
    intro p
    show (w.prepare cycle).1.total p = w.total p
    unfold World.total
    rw [hhanded]
  refine { bounded := fun p => (htotal p).trans_le (h.bounded p), counted := ?_, active := ?_ }
  · intro p hp
    obtain ⟨hlost, hforgotten⟩ := not_or.mp (mt List.mem_append.mpr hp)
    have hcounted := h.counted p hlost
    rw [htotal]
    show w.total p ≤ (((w.prepare cycle).1.logicalCaptures.filter fun logical _ =>
      logical ∈ (w.prepare cycle).2.logicals).get? p.key).getD 0
    rw [hcaptures, JsMap.get?_filter]
    cases hget : w.logicalCaptures.get? p.key with
    | none =>
      rw [hget] at hcounted
      exact hcounted
    | some count =>
      rw [hget, Option.getD_some] at hcounted
      by_cases hdesired : p.key ∈ (w.prepare cycle).2.logicals
      · rw [Option.filter_some, if_pos (decide_eq_true hdesired)]
        exact hcounted
      · -- the entry is dropped, so nothing had been counted in it
        rcases Nat.eq_zero_or_pos count with rfl | hpos
        · exact hcounted.trans (Nat.zero_le _)
        · refine absurd (List.mem_map.mpr ⟨(p.key, count), List.mem_filter.mpr ⟨?_, ?_⟩, rfl⟩) hforgotten
          · exact JsMap.get?_eq_some_iff.mp hget
          · exact decide_eq_true ⟨hpos, hdesired⟩
  · have hlimits : (w.prepare cycle).1.active.All fun _ a =>
        a.site.probe.hitLimit = hitLimit a.site.probe.id a.site.probe.version :=
      World.active_prepare (h.active.mono fun _ _ ha => ha.1)
    intro siteId a ha
    refine ⟨hlimits siteId a ha, hused _ (List.mem_append_right _ (List.mem_map.mpr ⟨a, ?_, rfl⟩))⟩
    exact JsMap.mem_values_iff.mpr ⟨siteId, JsMap.get?_eq_some_iff.mp ha⟩

/-- One cycle. -/
theorem Metered.reconcile {config : SafetyConfig} (h : Metered hitLimit lost w)
    (hcached : Desired.Limited hitLimit w.state.cachedDesired) (assigns : cycle.Assigns hitLimit)
    (hused : ∀ logical ∈ w.used cycle, logical ∉ lost ++ w.forgotten cycle) :
    Metered hitLimit (lost ++ w.forgotten cycle) (w.reconcile config cycle) := by
  have hdesired : Desired.Limited hitLimit (w.prepare cycle).2 := by
    rw [World.prepare_desired]
    exact (DesiredState.next_limited (by rw [DesiredState.reconcile_cachedDesired]; exact hcached) assigns).2
  have hretained := h.retain hused
  have hbooks := World.books_attachSites config cycle
    ((cycle.arrange ((w.prepare cycle).1.retainDesired (w.prepare cycle).2).calls).run
      (w.prepare cycle).2.entries) ((w.prepare cycle).1.retainDesired (w.prepare cycle).2)
  have hattached := hretained.of_books (congrArg (·.2.1) hbooks) (congrArg (·.2.2) hbooks)
    (World.active_attachSites hretained.active fun e he request => by
      have hentry := (cycle.arrange _).mem_run.mp he
      refine ⟨hdesired e.1 e.2 (JsMap.get?_eq_some_iff.mpr hentry), hused _ ?_⟩
      refine List.mem_append_left _ (List.mem_map.mpr ⟨e.2, ?_, rfl⟩)
      exact JsMap.mem_values_iff.mpr ⟨e.1, hentry⟩)
  unfold World.reconcile
  dsimp only
  split
  · exact hattached
  · exact hattached.observe

theorem RememberingRun.metered {config : SafetyConfig} (run : RememberingRun config hitLimit w lost) :
    Metered hitLimit lost w ∧ Desired.Limited hitLimit w.state.cachedDesired := by
  induction run with
  | start identity =>
    exact ⟨⟨fun _ => Nat.zero_le _, fun _ _ => Nat.zero_le _, JsMap.All.empty⟩, JsMap.All.empty⟩
  | @cycle w lost cycle _ assigns remembers ih =>
    refine ⟨ih.1.reconcile ih.2 assigns remembers, ?_⟩
    rw [World.state_reconcile]
    exact (DesiredState.next_limited (by rw [DesiredState.reconcile_cachedDesired]; exact ih.2) assigns).1

/-- While no probe is used whose count was dropped, no more goes out than its limit. -/
theorem RememberingRun.total_le {config : SafetyConfig} (run : RememberingRun config hitLimit w lost)
    (p : LogicalProbe) : w.total p ≤ hitLimit p.probeId p.probeVersion :=
  run.metered.1.bounded p

end

/-! ### A process that is missed once -/

/-- A cycle in which discovery does not see the process. -/
def missedCycle (version : ℕ) : Cycle :=
  { counterCycle version fun _ => {} with
    discovered := some []
    poll := fun _ _ => some { version, assignments := [] } }

/-- A cycle in which the kernel has counted so many hits. -/
def countedCycle (version captures : ℕ) : Cycle :=
  counterCycle version fun _ => { counters := some { rawHits := captures, captures, dropped := 0 } }

def counterProbe : LogicalProbe where
  instanceId := "shop-7-1"
  buildId := "b1"
  probeId := "p1"
  probeVersion := 1

theorem countedCycle_assigns (version captures : ℕ) :
    (countedCycle version captures).Assigns fun _ _ => 2 := by
  intro instances since answer hanswer assignment hassignment probe hprobe
  cases hanswer
  rw [List.mem_singleton.mp hassignment] at hprobe
  rw [List.mem_singleton.mp hprobe]
  rfl

/-- Of three hits two go out when the process stays. -/
theorem countedCycle_total :
    ((World.start ⟨1, 1⟩).reconcile oneAttachment (countedCycle 1 1) |>.reconcile oneAttachment
        (countedCycle 1 3)).total counterProbe = 2
      ∧ ((World.start ⟨1, 1⟩).reconcile oneAttachment (countedCycle 1 1) |>.reconcile oneAttachment
        (countedCycle 1 3)).total counterProbe ≤ 2 :=
  ⟨by decide, RememberingRun.total_le
    (((RememberingRun.start ⟨1, 1⟩ : RememberingRun _ (fun _ _ => 2) _ _).cycle (countedCycle_assigns 1 1) (by decide)).cycle
      (countedCycle_assigns 1 3) (by decide)) counterProbe⟩

/-- A process that is missed once and counted again from zero goes beyond the limit. -/
theorem missedProcess_not_bounded :
    ¬ ∀ w, MeteredRun oneAttachment (fun _ _ => 2) w → ∀ p, w.total p ≤ 2 := by
  intro h
  have hmissed : (missedCycle 2).Assigns fun _ _ => 2 := by
    intro instances since answer hanswer assignment hassignment
    cases hanswer
    exact absurd hassignment List.not_mem_nil
  have hbounded := h _ ((((MeteredRun.start ⟨1, 1⟩).cycle (countedCycle_assigns 1 1)).cycle hmissed).cycle
    (countedCycle_assigns 3 2)) counterProbe
  exact absurd hbounded (by decide)

end NativeAgent
